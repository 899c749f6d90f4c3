import VaultSchema.Note.Document
import VaultSchema.Table

set_option autoImplicit false

namespace VaultSchema

structure NoteStore where
  notes : List Document := []

namespace NoteStore

def find? (s : NoteStore) (id : String) : Option Document := s.notes.find? (·.id == id)

def without (s : NoteStore) (id : String) : NoteStore := ⟨s.notes.filter (·.id != id)⟩

/-- A note takes the place of any note of the same path. -/
def put (s : NoteStore) (d : Document) : NoteStore := ⟨d :: (s.without d.id).notes⟩

def ofList (ds : List Document) : NoteStore := ds.foldl put {}

def rename (s : NoteStore) (old new : String) : NoteStore × Option Document :=
  match s.find? old with
  | none => (s, none)
  | some d =>
    let moved := { d with id := new }
    ((s.without old).put moved, some moved)

def listed (s : NoteStore) : List Document := s.notes.mergeSort fun a b => decide (a.id ≤ b.id)

def ids (s : NoteStore) : List String := s.listed.map (·.id)

def inFolder (s : NoteStore) (folder : String) (recursive : Bool) : List Document :=
  s.listed.filter fun d => d.isIn folder recursive

end NoteStore
end VaultSchema
