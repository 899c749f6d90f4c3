import VaultSchema.Blob.Writer
import VaultSchema.Index.TagIndex
import VaultSchema.Json.Reading

/-! The index of tags as it is kept in a blob. A blob that is absent, unreadable or malformed makes
the index be built from the notes; one that is read is brought up to date with them. Changes are
scheduled to be saved. -/

set_option autoImplicit false

namespace VaultSchema

namespace TagIndex

def version : Nat := 1

def blobName : String := "tags-index.json"

def toValue (x : TagIndex) : Except ValueFault Value := do
  let rows ← x.toRows
  return .mapping [(.text "version", .int version),
    (.text "tags", .mapping (rows.map fun r => (.text r.1, .list (r.2.map .scalar))))]

def toText (x : TagIndex) : Except ValueFault String := do Json.write .indented (← x.toValue)

def isCurrent (m : Entries) : Bool :=
  match Entries.get? "version" m with
  | some (.scalar s) => s.sameKey (.int version)
  | _ => false

def scalar? : Value → Option Scalar
  | .scalar s => some s
  | _ => none

/-- The members of a tag as they may be stored: scalars, the characters of a text, or the keys of a
mapping. -/
def readMembers? : Value → Option (List Scalar)
  | .sequence _ items => items.mapM scalar?
  | .text s => some (s.toList.map fun c => .text c.toString)
  | .mapping m => some (m.map Prod.fst)
  | _ => none

def readRow? : Scalar × Value → Option (String × List Scalar)
  | (.text tag, v) => (readMembers? v).map (tag, ·)
  | _ => none

/-- The members of a tag put into the index. A tag without members leaves no trace. -/
def addRow (x : TagIndex) (row : String × List Scalar) : TagIndex :=
  row.2.foldl (fun x id => addTag id x row.1) x

/-- The index of which each tag has the given members. A member that is spelled in several ways goes
by the first of them. -/
def ofRows (rows : List (String × List Scalar)) : TagIndex :=
  let known := rows.flatMap Prod.snd
  (rows.map fun r => (r.1, r.2.map fun s => (known.find? s.sameKey).getD s)).foldl addRow {}

def ofValue? : Value → Option TagIndex
  | .mapping m =>
    if isCurrent m then
      match Entries.get? "tags" m with
      | some (.mapping tags) => (tags.mapM readRow?).map ofRows
      | _ => none
    else none
  | _ => none

def ofText? (s : String) : Option TagIndex := (Json.read? s).bind ofValue?

end TagIndex

/-- The index in use, and what of it is still to be saved. -/
structure StoredIndex where
  index : TagIndex := {}
  writer : Writer := {}
  ready : Bool := false
  deriving Repr

namespace StoredIndex

def applied (x : StoredIndex) (outcome : TagIndex × Bool) : StoredIndex :=
  { x with
    index := outcome.1
    writer := if outcome.2 then x.writer.schedule true else x.writer }

def update (x : StoredIndex) (d : Document) : StoredIndex := x.applied (x.index.update d)

def remove (x : StoredIndex) (id : String) : StoredIndex := x.applied (x.index.remove (.text id))

def rename (x : StoredIndex) (old new : String) : StoredIndex :=
  x.applied (x.index.rename (.text old) (.text new))

def reconcile (x : StoredIndex) (notes : NoteStore) : StoredIndex × Nat :=
  let (index, changed) := x.index.reconcile notes
  (x.applied (index, changed != 0), changed)

def withWriter (x : StoredIndex) (w : Writer) : StoredIndex := { x with writer := w }

def save (x : StoredIndex) (b : BlobStore) : Saved StoredIndex :=
  (x.writer.save b TagIndex.blobName x.index.toText).map x.withWriter

def flush (x : StoredIndex) (b : BlobStore) : Saved StoredIndex :=
  (x.writer.flush b TagIndex.blobName x.index.toText).map x.withWriter

def expire (x : StoredIndex) (b : BlobStore) : Saved StoredIndex :=
  (x.writer.expire b TagIndex.blobName x.index.toText).map x.withWriter

def load (x : StoredIndex) (b : BlobStore) : Except ValueFault (Option StoredIndex) :=
  match b.read TagIndex.blobName with
  | .found text =>
    .ok ((TagIndex.ofText? text).map fun index => { x with index := index, ready := true })
  | .absent | .failed => .ok none
  | .garbled => .error .notText

def rebuild (x : StoredIndex) (notes : NoteStore) (b : BlobStore) : Saved StoredIndex :=
  let built : StoredIndex := ⟨TagIndex.ofNotes notes, { x.writer with dirty := true }, x.ready⟩
  let saved := built.flush b
  if saved.fault.isSome then saved else saved.map fun x => { x with ready := true }

def start (x : StoredIndex) (notes : NoteStore) (b : BlobStore) : Saved StoredIndex :=
  match x.load b with
  | .ok (some loaded) => ⟨(loaded.reconcile notes).1, b, none⟩
  | .ok none => x.rebuild notes b
  | .error f => ⟨x, b, some f⟩

end StoredIndex
end VaultSchema
