import VaultSchema.Blob.Store
import VaultSchema.Files.Tree
import VaultSchema.Note.Frontmatter
import VaultSchema.Note.Store

/-! The notes of a vault as files below its root folder. They are read when they are first asked
for, and one by one when they change. Hidden files and folders are passed over, and so is what
cannot be read; a note with unreadable frontmatter counts as one without any. -/

set_option autoImplicit false

namespace VaultSchema

inductive LoadingFault where
  | yaml (fault : Yaml.YamlFault)
  | value (fault : ValueFault)
  deriving DecidableEq, Repr

structure VaultNotes where
  root : String
  loaded : Option NoteStore := none

namespace VaultNotes

def parse (content : String) : Except LoadingFault Note :=
  match Note.parse content with
  | .ok note => .ok note
  | .error .badKey | .error (.yaml .malformed) => .ok ⟨none, content⟩
  | .error (.yaml f) => .error (.yaml f)

/-- One note, nothing when it cannot be read. Its creation is taken to be its last change. -/
def load (v : VaultNotes) (t : FileTree) (id : String) : Except LoadingFault (Option Document) :=
  let path := Path.resolve v.root id
  match t.read path with
  | .error _ => .ok none
  | .ok content => do
    let note ← parse content
    let changed := (t.mtime? path).bind Moment.ofTimestamp?
    let d ← (Document.ofContent id note.frontmatter note.body changed changed).mapError .value
    return some d

/-- A path below the root is one of a note: no part of it is hidden. -/
def isNotePath (path : String) : Bool :=
  ".md".toList.isSuffixOf path.toList && (Path.parts path).all fun p => p.toList.head? != some '.'

def inOrder : List String → List String → Bool
  | [], _ => true
  | _ :: _, [] => false
  | a :: as, b :: bs => a < b || (a == b && inOrder as bs)

def notePaths (v : VaultNotes) (t : FileTree) : List String :=
  ((t.below (Path.resolve "/" v.root)).filter isNotePath).mergeSort fun a b =>
    inOrder (Path.parts a) (Path.parts b)

def scan (v : VaultNotes) (t : FileTree) : Except LoadingFault NoteStore := do
  let found ← (v.notePaths t).mapM (v.load t)
  return NoteStore.ofList (found.filterMap id)

def notes (v : VaultNotes) (t : FileTree) : Except LoadingFault NoteStore :=
  match v.loaded with
  | some s => .ok s
  | none => v.scan t

def withNotes (v : VaultNotes) (s : NoteStore) : VaultNotes := { v with loaded := some s }

def forget (v : VaultNotes) (t : FileTree) (id : String) : Except LoadingFault VaultNotes := do
  return v.withNotes ((← v.notes t).without id)

/-- Reads one note again. It is forgotten when it is gone. -/
def refresh (v : VaultNotes) (t : FileTree) (id : String) :
    Except LoadingFault (VaultNotes × Option Document) := do
  match ← v.load t id with
  | none => return (← v.forget t id, none)
  | some d => return (v.withNotes ((← v.notes t).put d), some d)

def rename (v : VaultNotes) (t : FileTree) (old new : String) :
    Except LoadingFault (VaultNotes × Option Document) := do
  (← v.forget t old).refresh t new

end VaultNotes
end VaultSchema
