import VaultSchema.Proofs.Index.Current

set_option autoImplicit false

namespace VaultSchema.StoredIndex

/-- An index that was started is the one built from the notes. -/
structure Converged (s : NoteStore) (saved : Saved StoredIndex) : Prop where
  fault : saved.fault = none
  ready : saved.value.ready = true
  rows : ∃ rows, saved.value.index.toRows = .ok rows ∧
    ∀ (x : StoredIndex) (b : BlobStore), (x.rebuild s b).value.index.toRows = .ok rows
  tags : ∀ d ∈ s.notes, ∀ t, t ∈ saved.value.index.tagsFor (.text d.id) ↔ t ∈ d.tags
  others : ∀ i, (∀ d ∈ s.notes, i ≠ .text d.id) → saved.value.index.tagsFor i = []

theorem Begun.converged {s : NoteStore} {b : BlobStore} {saved : Saved StoredIndex} (h : Begun s b saved)
    (distinct : s.Distinct) : Converged s saved := by
  obtain ⟨same, rows, built⟩ := h.current.coherent.toRows_eq h.current.tags
  refine ⟨h.fault, h.ready, ⟨rows, same.trans built, fun x b => ?_⟩, fun d mem t => ?_, fun i away => ?_⟩
  · rw [index_rebuild, built]
  · rw [h.current.tags]
    constructor
    · rintro ⟨c, inside, path, tagged⟩
      rwa [NoteStore.eq_of_id_eq distinct mem inside (Scalar.text.inj path)]
    · exact fun tagged => ⟨d, mem, rfl, tagged⟩
  · rw [List.eq_nil_iff_forall_not_mem]
    intro t known
    obtain ⟨d, mem, path, _⟩ := (h.current.tags t i).1 known
    exact away d mem path

/-- A start converges whatever text the blob holds, or if it is missing or cannot be read, and whether or not
the index can be written then. -/
theorem start_converges (x : StoredIndex) (s : NoteStore) (before after : BlobStore) (distinct : s.Distinct)
    (readable : before.read TagIndex.blobName ≠ .garbled) : Converged s (x.startAmid s before after) :=
  (x.startAmid_begins distinct readable after).converged distinct

def staleShelves : BlobStore where
  blobs := Table.put {} TagIndex.blobName
    (.text "\x7b\"version\": 1, \"tags\": \x7b\"read\": [\"Gone.md\", null], \"lent\": [\"Dune.md\"]\x7d\x7d")

/-- The stale index is brought up to date, and what is no index is replaced while nothing can be written. -/
theorem shelves_converge : shelves.Distinct ∧ staleShelves.read TagIndex.blobName ≠ .garbled ∧
    Converged shelves (startAmid {} shelves staleShelves staleShelves) ∧
      Converged shelves (startAmid {} shelves ⟨Table.put {} TagIndex.blobName (.text "["), false, 0⟩ ⟨{}, true, 0⟩) := by
  have distinct : shelves.Distinct := show (shelves.notes.map (·.id)).Nodup by decide
  exact ⟨distinct, by decide, start_converges _ _ _ _ distinct (by decide), start_converges _ _ _ _ distinct (by decide)⟩

end VaultSchema.StoredIndex
