import VaultSchema.Proofs.Blob.Store

set_option autoImplicit false

namespace VaultSchema

namespace BlobStore

def whenFailing (b : BlobStore) (fails : Bool) : BlobStore := { b with failing := fails }

def text? (b : BlobStore) (name : String) : Option String :=
  match b.blobs.get? name with
  | some (.text s) => some s
  | _ => none

theorem read_whenFailing {b : BlobStore} {name text : String} (holds : b.text? name = some text) :
    (b.whenFailing false).read name = .found text := by
  unfold text? at holds
  unfold whenFailing read
  split at holds
  · rename_i s there
    rw [there]
    cases holds
    rfl
  · cases holds

theorem text?_of_read {b : BlobStore} {name text : String} (found : b.read name = .found text) :
    b.text? name = some text := by
  unfold read at found
  unfold text?
  split at found
  · cases found
  · split at found
    · rename_i s there
      cases found
      rw [there]
    all_goals cases found

theorem text?_write? {b c : BlobStore} {name text : String} (written : b.write? name text = some c) :
    c.text? name = some text := text?_of_read (read_write? written)

theorem exists_write? {b : BlobStore} {name : String} (free : b.blobs.get? name ≠ some .blocked) (text : String) :
    ∃ c, (b.whenFailing false).write? name text = some c := by
  unfold write? whenFailing
  exact ⟨_, if_neg (by simpa using free)⟩

end BlobStore

namespace Writer

/-- Nothing is unsaved, or else the blob holds a text with a property. -/
def Settled (good : String → Prop) (name : String) (w : Writer) (b : BlobStore) : Prop :=
  w.dirty = false → ∃ text, b.text? name = some text ∧ good text

variable {good : String → Prop} {name text : String} {w : Writer} {b : BlobStore}

theorem settled_save (fits : good text) (w : Writer) (b : BlobStore) :
    Settled good name (w.save b name (.ok text)).value (w.save b name (.ok text)).blobs := by
  intro clean
  unfold save at clean ⊢
  dsimp only at clean ⊢
  cases written : b.write? name text with
  | none =>
    rw [written] at clean
    cases clean
  | some c => exact ⟨text, BlobStore.text?_write? written, fits⟩

theorem settled_flush (fits : good text) (before : Settled good name w b) :
    Settled good name (w.flush b name (.ok text)).value (w.flush b name (.ok text)).blobs := by
  obtain ⟨dirty, pending⟩ := w
  cases dirty with
  | false => exact fun _ => before rfl
  | true => exact settled_save fits _ b

theorem settled_expire (fits : good text) (before : Settled good name w b) :
    Settled good name (w.expire b name (.ok text)).value (w.expire b name (.ok text)).blobs := by
  unfold expire
  split
  · exact settled_flush fits before
  · exact before

theorem text?_save (w : Writer) (b : BlobStore) (name text : String) :
    (w.save b name (.ok text)).blobs.text? name = b.text? name ∨
      (w.save b name (.ok text)).blobs.text? name = some text := by
  unfold save
  dsimp only
  cases written : b.write? name text with
  | none => exact Or.inl rfl
  | some c => exact Or.inr (BlobStore.text?_write? written)

theorem text?_flush (w : Writer) (b : BlobStore) (name text : String) :
    (w.flush b name (.ok text)).blobs.text? name = b.text? name ∨
      (w.flush b name (.ok text)).blobs.text? name = some text := by
  obtain ⟨dirty, pending⟩ := w
  cases dirty with
  | false => exact Or.inl rfl
  | true => exact text?_save _ b name text

theorem text?_expire (w : Writer) (b : BlobStore) (name text : String) :
    (w.expire b name (.ok text)).blobs.text? name = b.text? name ∨
      (w.expire b name (.ok text)).blobs.text? name = some text := by
  unfold expire
  split
  · exact text?_flush w b name text
  · exact Or.inl rfl

theorem clean_flush (w : Writer) (free : b.blobs.get? name ≠ some .blocked) (text : String) :
    (w.flush (b.whenFailing false) name (.ok text)).value.dirty = false := by
  obtain ⟨dirty, pending⟩ := w
  cases dirty with
  | false => rfl
  | true =>
    obtain ⟨c, written⟩ := BlobStore.exists_write? free text
    rw [flush_written rfl written]

end Writer
end VaultSchema
