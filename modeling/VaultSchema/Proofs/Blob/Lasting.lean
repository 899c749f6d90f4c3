import VaultSchema.Proofs.Cache.Saving
import VaultSchema.Proofs.Index.Saving

set_option autoImplicit false

namespace VaultSchema

/-- An index that was started, and a cache that was loaded or has something to save, are safe from then on.
An index that is loaded again has a blob that lists nothing but paths, as every blob does that an index has
written. -/
theorem nothing_lost :
    (∀ (x : StoredIndex) (b : BlobStore) (s : NoteStore) (unread unwritten : Bool) (work : List IndexWork),
      ((IndexWork.started s unread unwritten).act x b).fault = none →
      (∀ unread, .loaded unread ∈ work → TagIndex.Listed b) →
      StoredIndex.Safe (IndexWork.run work ((IndexWork.started s unread unwritten).act x b))) ∧
    (∀ (settings : String) (b : BlobStore) (before after : List CacheWork),
      Cache.Awake (CacheWork.run before ⟨{ settings := settings }, b, none⟩) →
      Cache.Safe (CacheWork.run after (CacheWork.run before ⟨{ settings := settings }, b, none⟩))) := by
  constructor
  · intro x b s unread unwritten work ran listed
    have own : (∃ unread, .loaded unread ∈ work) → TagIndex.Listed b := fun ⟨unread, mem⟩ => listed unread mem
    have begun := StoredIndex.start_kept own ran
    exact (begun.run fun unread mem => ⟨unread, mem⟩).safe
  · intro settings b before after awake
    have fresh : Cache.Kept False { settings := settings } b :=
      ⟨⟨List.nodup_nil, List.nodup_nil, by simp⟩, False.elim⟩
    have writable := (fresh.run (s := ⟨{ settings := settings }, b, none⟩) before).writable
    exact ((awake.kept writable).run after).safe

open StoredIndex (shelves tagged)

/-- A book is tagged while nothing can be written, and the index is read again before it is saved and then
moves on; a cache with an entry fails to be saved at first. -/
theorem tagged_book_lasts :
    ((IndexWork.started shelves false true).act {} {}).fault = none ∧ TagIndex.Listed {} ∧
    StoredIndex.Safe (IndexWork.run [.updated (tagged "Dune.md" "lent"), .flushed true, .loaded false,
      .expired false, .renamed "Dune.md" "Arrakis.md"] ((IndexWork.started shelves false true).act {} {})) ∧
    Cache.Awake (CacheWork.run [.updated "Dune.md" .zero (Binary64.held_zero false) ["books"] []] ⟨{ settings := "" }, {}, none⟩) ∧
    Cache.Safe (CacheWork.run [.flushed true, .violationsUpdated "Emma.md" [], .expired false]
      (CacheWork.run [.updated "Dune.md" .zero (Binary64.held_zero false) ["books"] []] ⟨{ settings := "" }, {}, none⟩)) := by
  have distinct : shelves.Distinct := show (shelves.notes.map (·.id)).Nodup by decide
  have readable : (({} : BlobStore).whenFailing false).read TagIndex.blobName ≠ .garbled := by decide
  have ran := (StoredIndex.startAmid_begins {} distinct readable (({} : BlobStore).whenFailing true)).fault
  have listed : TagIndex.Listed {} := fun text z there _ => by cases there
  refine ⟨ran, listed, nothing_lost.1 {} {} shelves false true _ ran fun _ _ => listed, Or.inl rfl,
    nothing_lost.2 "" {} _ _ (Or.inl rfl)⟩

end VaultSchema
