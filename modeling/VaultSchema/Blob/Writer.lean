import VaultSchema.Blob.Store
import VaultSchema.Value.Basic

/-! Saving some time after a change. A `Writer` knows whether there are changes to save and whether
a timer runs that will save them, so that a burst of changes costs one write. Changes count as saved
from the moment the write begins; a write that fails makes them unsaved again. -/

set_option autoImplicit false

namespace VaultSchema

structure Writer where
  dirty : Bool := false
  pending : Bool := false
  deriving DecidableEq, Repr

/-- What an attempt to save leaves behind. The fault is that of content without a text. -/
structure Saved (α : Type) where
  value : α
  blobs : BlobStore
  fault : Option ValueFault := none
  deriving DecidableEq, Repr

def Saved.map {α β : Type} (f : α → β) (s : Saved α) : Saved β := ⟨f s.value, s.blobs, s.fault⟩

namespace Writer

def schedule (_ : Writer) (timed : Bool) : Writer := ⟨true, timed⟩

def cancel (w : Writer) : Writer := { w with pending := false }

def begin (w : Writer) : Writer × Bool := (⟨false, false⟩, w.dirty)

/-- A write on demand. Its success does not stop the timer, and a later write repeats it. -/
def save (w : Writer) (b : BlobStore) (name : String) (content : Except ValueFault String) :
    Saved Writer :=
  match content with
  | .error f => ⟨w, b, some f⟩
  | .ok text =>
    match b.write? name text with
    | some written => { value := w, blobs := written }
    | none => { value := { w with dirty := true }, blobs := b }

def flush (w : Writer) (b : BlobStore) (name : String) (content : Except ValueFault String) :
    Saved Writer :=
  match w.begin with
  | (w, true) => w.save b name content
  | (w, false) => { value := w, blobs := b }

def expire (w : Writer) (b : BlobStore) (name : String) (content : Except ValueFault String) :
    Saved Writer :=
  if w.pending then w.flush b name content else { value := w, blobs := b }

theorem flush_clean (b : BlobStore) (name : String) (content : Except ValueFault String) (w : Writer)
    (clean : w.dirty = false) : w.flush b name content = ⟨{}, b, none⟩ := by
  simp [flush, begin, clean]

theorem flush_written {w : Writer} {b c : BlobStore} {name text : String} (unsaved : w.dirty = true)
    (written : b.write? name text = some c) : w.flush b name (.ok text) = ⟨{}, c, none⟩ := by
  simp [flush, begin, save, unsaved, written]

end Writer
end VaultSchema
