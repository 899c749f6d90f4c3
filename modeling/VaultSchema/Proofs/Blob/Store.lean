import VaultSchema.Blob.Writer

set_option autoImplicit false

namespace VaultSchema

/-- Of the blobs just one may differ, and it holds no bytes that are not a text unless it did. -/
structure BlobStore.Beside (name : String) (b after : BlobStore) : Prop where
  failing : after.failing = b.failing
  others : ∀ other, other ≠ name → after.blobs.get? other = b.blobs.get? other
  readable : b.read name ≠ .garbled → after.read name ≠ .garbled

namespace BlobStore

variable {name other : String} {b c : BlobStore}

theorem Beside.refl (name : String) (b : BlobStore) : Beside name b b := ⟨rfl, fun _ _ => rfl, fun h => h⟩

theorem Beside.read (h : Beside name b c) (apart : other ≠ name) : c.read other = b.read other := by
  unfold BlobStore.read
  rw [h.failing, h.others other apart]

theorem beside_write? {text : String} (written : b.write? name text = some c) : Beside name b c := by
  have now := read_write? written
  unfold write? at written
  split at written
  · cases written
  · cases written
    refine ⟨rfl, fun other apart => ?_, fun _ garbled => ?_⟩
    · rw [Table.get?_put, if_neg apart.symm]
    · rw [now] at garbled
      cases garbled

end BlobStore

namespace Writer

theorem save_beside (w : Writer) (b : BlobStore) (name : String) (content : Except ValueFault String) :
    b.Beside name (w.save b name content).blobs := by
  unfold save
  cases content with
  | error f => exact .refl name b
  | ok text =>
    dsimp only
    cases written : b.write? name text with
    | none => exact .refl name b
    | some c => exact BlobStore.beside_write? written

theorem flush_beside (w : Writer) (b : BlobStore) (name : String) (content : Except ValueFault String) :
    b.Beside name (w.flush b name content).blobs := by
  obtain ⟨dirty, pending⟩ := w
  cases dirty with
  | false => exact .refl name b
  | true => exact save_beside _ b name content

theorem flush_fault (w : Writer) (b : BlobStore) (name text : String) :
    (w.flush b name (.ok text)).fault = none := by
  obtain ⟨dirty, pending⟩ := w
  cases dirty with
  | false => rfl
  | true =>
    change (save ⟨false, false⟩ b name (.ok text)).fault = none
    unfold save
    dsimp only
    cases b.write? name text <;> rfl

end Writer
end VaultSchema
