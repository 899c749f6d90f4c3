import VaultSchema.Json.Writing
import VaultSchema.Note.Store
import VaultSchema.Query.Basic

/-! The index of tags. Members are notes' paths, but an index that was read from a file may list any
other scalar, so members are scalars. Besides its result an operation tells whether it changed
something that is to be saved. -/

set_option autoImplicit false

namespace VaultSchema

structure TagIndex where
  byTag : Table String (List Scalar) := {}
  byNote : Table Scalar (List String) := {}
  deriving Repr

namespace TagIndex

def tagsFor (x : TagIndex) (id : Scalar) : List String := (x.byNote.get? id).getD []

def members (x : TagIndex) (tag : String) : List Scalar := (x.byTag.get? tag).getD []

def addTag (id : Scalar) (x : TagIndex) (tag : String) : TagIndex :=
  ⟨x.byTag.put tag (Members.insert (x.members tag) id),
    x.byNote.put id (Members.insert (x.tagsFor id) tag)⟩

def addTags (x : TagIndex) (id : Scalar) (tags : List String) : TagIndex := tags.foldl (addTag id) x

/-- A tag without members is dropped. -/
def discard (id : Scalar) (x : TagIndex) (tag : String) : TagIndex :=
  match x.byTag.get? tag with
  | none => x
  | some members =>
    let rest := members.filter (· ≠ id)
    let byTag := if rest.isEmpty then x.byTag.drop tag else x.byTag.put tag rest
    match x.byNote.get? id with
    | none => ⟨byTag, x.byNote⟩
    | some tags => ⟨byTag, x.byNote.put id (tags.filter (· ≠ tag))⟩

def update (x : TagIndex) (d : Document) : TagIndex × Bool :=
  let id := Scalar.text d.id
  let new := Text.distinct d.tags
  let old := x.tagsFor id
  if Members.same new old then (x, false)
  else
    let y := ((Members.without old new).foldl (discard id) x).addTags id (Members.without new old)
    (if new.isEmpty then ⟨y.byTag, y.byNote.drop id⟩ else y, true)

def remove (x : TagIndex) (id : Scalar) : TagIndex × Bool :=
  let old := x.tagsFor id
  let y : TagIndex := ⟨x.byTag, x.byNote.drop id⟩
  if old.isEmpty then (y, false) else (old.foldl (discard id) y, true)

def renameIn (old new : Scalar) (byTag : Table String (List Scalar)) (tag : String) :
    Table String (List Scalar) :=
  byTag.put tag (Members.insert (((byTag.get? tag).getD []).filter (· ≠ old)) new)

/-- A note's tags go to another path, whatever tags were known there. -/
def rename (x : TagIndex) (old new : Scalar) : TagIndex × Bool :=
  let tags := x.tagsFor old
  let byNote := x.byNote.drop old
  if tags.isEmpty then (⟨x.byTag, byNote⟩, false)
  else (⟨tags.foldl (renameIn old new) x.byTag, byNote.put new tags⟩, true)

def ofNotes (s : NoteStore) : TagIndex :=
  s.listed.foldl (fun x d => x.addTags (.text d.id) d.tags) {}

def updateAll (x : TagIndex) : List Document → TagIndex × Nat
  | [] => (x, 0)
  | d :: rest =>
    let (y, changed) := x.update d
    let (z, n) := updateAll y rest
    (z, if changed then n + 1 else n)

def removeAll (x : TagIndex) : List Scalar → TagIndex × Nat
  | [] => (x, 0)
  | id :: rest =>
    let (z, n) := removeAll (x.remove id).1 rest
    (z, n + 1)

def reconcile (x : TagIndex) (s : NoteStore) : TagIndex × Nat :=
  let (y, changed) := x.updateAll s.listed
  let present := s.ids.map Scalar.text
  let (z, gone) := y.removeAll (Members.without y.byNote.keys present)
  (z, changed + gone)

/-- The members of a tag and of the tags nested below it. -/
def withTag (x : TagIndex) (tag : String) : List Scalar :=
  let name := bareTag tag
  (x.byTag.rows.filter fun r => r.1 == name || Folder.isBelow r.1 name).foldl
    (fun found r => r.2.foldl Members.insert found) []

def sortMembers (ids : List Scalar) : Except ValueFault (List Scalar) := do
  return (← Json.sortMembers (ids.map fun id => (id, ()))).map Prod.fst

def toRows (x : TagIndex) : Except ValueFault (List (String × List Scalar)) :=
  collect <| (x.byTag.rows.mergeSort fun a b => decide (a.1 ≤ b.1)).map fun r => do
    return (r.1, ← sortMembers r.2)

structure Stats where
  tags : Nat
  notes : Nat
  memberships : Nat
  deriving DecidableEq, Repr

def stats (x : TagIndex) : Stats :=
  ⟨x.byTag.size, x.byNote.size, x.byTag.values.foldl (fun n members => n + members.length) 0⟩

end TagIndex
end VaultSchema
