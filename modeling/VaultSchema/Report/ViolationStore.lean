import VaultSchema.Schema.Violation
import VaultSchema.Table

/-! The current violations of a vault, by note. Whoever writes replaces a slice: what a schema says
of a note, one kind of violation of one field, or everything of a note, of a schema, or of a kind.
Listeners are notified after a change, and within a batch once at its end. -/

set_option autoImplicit false

namespace VaultSchema

structure Listener where
  calls : Nat := 0
  active : Bool := true
  deriving DecidableEq, Repr

def Listener.notify (l : Listener) : Listener := if l.active then { l with calls := l.calls + 1 } else l

structure ViolationStore where
  byNote : Table String (List Violation) := {}
  listeners : List Listener := []
  depth : Nat := 0
  /-- Something in the open batch is to be notified. -/
  owed : Bool := false
  marked : Bool := false
  deriving DecidableEq, Repr

structure ViolationCounts where
  total : Nat
  notes : Nat
  errors : Nat
  warnings : Nat
  deriving DecidableEq, Repr

namespace ViolationStore

/-- A listener is known by its position. -/
def subscribe (s : ViolationStore) : ViolationStore × Nat :=
  ({ s with listeners := s.listeners ++ [{}] }, s.listeners.length)

def unsubscribe (s : ViolationStore) (position : Nat) : ViolationStore :=
  { s with listeners := s.listeners.modify position fun l => { l with active := false } }

def notify (s : ViolationStore) : ViolationStore :=
  if 0 < s.depth then { s with owed := true }
  else { s with listeners := s.listeners.map Listener.notify }

def beginBatch (s : ViolationStore) : ViolationStore := { s with depth := s.depth + 1 }

/-- An end without a beginning does nothing. -/
def endBatch (s : ViolationStore) : ViolationStore :=
  match s.depth with
  | 0 => s
  | 1 => if s.owed then notify { s with depth := 0, owed := false } else { s with depth := 0 }
  | n + 2 => { s with depth := n + 1 }

def ofNote (s : ViolationStore) (id : String) : List Violation := (s.byNote.get? id).getD []

def all (s : ViolationStore) (severity : Severity) : List Violation :=
  s.byNote.values.flatten.filter (·.shownAt severity)

def ofSchema (s : ViolationStore) (schema : String) : List Violation :=
  s.byNote.values.flatten.filter (·.schema == schema)

def grouped (s : ViolationStore) (severity : Severity) : List (String × List Violation) :=
  let rows := s.byNote.rows.mergeSort fun a b => decide (a.1 ≤ b.1)
  (rows.map fun r => (r.1, r.2.filter (·.shownAt severity))).filter fun r => !r.2.isEmpty

def size (s : ViolationStore) : Nat := s.byNote.values.foldl (fun n vs => n + vs.length) 0

def counts (s : ViolationStore) : ViolationCounts :=
  let found := s.all .all
  let warnings := (found.filter (·.isWarning)).length
  ⟨found.length, s.byNote.size, found.length - warnings, warnings⟩

def hasErrors (s : ViolationStore) : Bool := s.byNote.values.any fun vs => vs.any (!·.isWarning)

def replaceIn (byNote : Table String (List Violation)) (id : String) (vs : List Violation) :
    Table String (List Violation) :=
  if vs.isEmpty then byNote.drop id else byNote.put id vs

def replace (s : ViolationStore) (id : String) (vs : List Violation) : ViolationStore :=
  { s with byNote := replaceIn s.byNote id vs }

def addOne (s : ViolationStore) (v : Violation) : ViolationStore :=
  s.replace v.document (s.ofNote v.document ++ [v])

def add (s : ViolationStore) (vs : List Violation) : ViolationStore :=
  if vs.isEmpty then s else (vs.foldl addOne s).notify

/-- What a schema says of a note, reports of duplicates apart. -/
def ownedBy (schema : String) (v : Violation) : Bool := v.schema == schema && v.kind != .duplicateValue

/-- Replaces what a schema says of a note. Reports of duplicates stay: they concern several notes and
are replaced by themselves. -/
def setSchema (s : ViolationStore) (id schema : String) (vs : List Violation) : ViolationStore :=
  (s.replace id ((s.ofNote id).filter (!ownedBy schema ·) ++ vs)).notify

def isAbout (schema field : String) (kind : ViolationKind) (v : Violation) : Bool :=
  v.schema == schema && v.field == field && v.kind == kind

def replaceField (s : ViolationStore) (id schema field : String) (kind : ViolationKind)
    (vs : List Violation) : ViolationStore :=
  (s.replace id ((s.ofNote id).filter (!isAbout schema field kind ·) ++ vs)).notify

def removeNote (s : ViolationStore) (id : String) : ViolationStore :=
  if s.byNote.has id then notify { s with byNote := s.byNote.drop id } else s

def removeNoteSchema (s : ViolationStore) (id schema : String) : ViolationStore :=
  if (s.ofNote id).any (·.schema == schema) then
    (s.replace id ((s.ofNote id).filter (·.schema != schema))).notify
  else s

def removeWhere (s : ViolationStore) (p : Violation → Bool) : ViolationStore :=
  if s.byNote.values.any fun vs => vs.any p then
    let kept := s.byNote.rows.map fun r => (r.1, r.2.filter (!p ·))
    notify { s with byNote := ⟨kept.filter fun r => !r.2.isEmpty⟩ }
  else s

def removeSchema (s : ViolationStore) (schema : String) : ViolationStore :=
  s.removeWhere (·.schema == schema)

def removeKind (s : ViolationStore) (schema : String) (kind : ViolationKind) : ViolationStore :=
  s.removeWhere fun v => v.schema == schema && v.kind == kind

def rename (s : ViolationStore) (old new : String) : ViolationStore :=
  match s.byNote.get? old with
  | none => s
  | some vs =>
    let moved := vs.map fun v => { v with document := new }
    notify { s with byNote := (s.byNote.drop old).put new moved }

def clear (s : ViolationStore) : ViolationStore := notify { s with byNote := {} }

def mark (s : ViolationStore) : ViolationStore := { s with marked := true }

end ViolationStore
end VaultSchema
