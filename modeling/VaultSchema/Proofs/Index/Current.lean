import VaultSchema.Proofs.Blob.Store
import VaultSchema.Proofs.Index.Rows
import VaultSchema.Proofs.Index.Series

/-! An index that is current for a store knows the tags of its notes, and nothing else. A start
makes the index current unless its blob is no text, changes of notes keep it current, and a current
index can be saved. -/

set_option autoImplicit false

namespace VaultSchema

namespace TagIndex

/-- An index knows the tags of the notes of a store, and nothing else. -/
structure Current (x : TagIndex) (s : NoteStore) : Prop where
  coherent : x.Coherent
  tags : ∀ t i, t ∈ x.tagsFor i ↔ ∃ d ∈ s.notes, i = .text d.id ∧ t ∈ d.tags

variable {x : TagIndex} {s : NoteStore}

theorem current_ofNotes (s : NoteStore) : (ofNotes s).Current s := ⟨(ofNotes_coherent s).1, (ofNotes_coherent s).2⟩

theorem Coherent.current_reconcile (h : x.Coherent) (distinct : s.Distinct) : (x.reconcile s).1.Current s :=
  ⟨(h.reconcile distinct).1, (h.reconcile distinct).2⟩

/-- After the update for a note it does not matter what was known at its path. -/
theorem Coherent.current_put (h : x.Coherent) {d : Document}
    (others : ∀ t i, i ≠ .text d.id → (t ∈ x.tagsFor i ↔ ∃ b ∈ s.notes, i = .text b.id ∧ t ∈ b.tags)) :
    (x.update d).1.Current (s.put d) := by
  obtain ⟨coherent, updated⟩ := h.update d
  refine ⟨coherent, fun t i => ?_⟩
  rw [updated]
  split
  · rename_i here
    subst here
    constructor
    · exact fun tagged => ⟨d, NoteStore.mem_put.2 (Or.inl rfl), rfl, tagged⟩
    · rintro ⟨b, mem, path, tagged⟩
      rcases NoteStore.mem_put.1 mem with rfl | ⟨_, apart⟩
      · exact tagged
      · exact (apart (Scalar.text.inj path).symm).elim
  · rename_i away
    rw [others t i away]
    constructor
    · rintro ⟨b, mem, rfl, tagged⟩
      exact ⟨b, NoteStore.mem_put.2 (Or.inr ⟨mem, fun same => away (by rw [same])⟩), rfl, tagged⟩
    · rintro ⟨b, mem, rfl, tagged⟩
      rcases NoteStore.mem_put.1 mem with rfl | ⟨inside, _⟩
      · exact (away rfl).elim
      · exact ⟨b, inside, rfl, tagged⟩

theorem Current.put (h : x.Current s) (d : Document) : (x.update d).1.Current (s.put d) :=
  h.coherent.current_put fun t i _ => h.tags t i

theorem Current.without (h : x.Current s) (id : String) : (x.remove (.text id)).1.Current (s.without id) := by
  obtain ⟨coherent, removed⟩ := h.coherent.remove (.text id)
  refine ⟨coherent, fun t i => ?_⟩
  rw [removed, h.tags]
  constructor
  · rintro ⟨away, b, mem, rfl, tagged⟩
    exact ⟨b, NoteStore.mem_without.2 ⟨mem, fun same => away (by rw [same])⟩, rfl, tagged⟩
  · rintro ⟨b, mem, rfl, tagged⟩
    obtain ⟨inside, apart⟩ := NoteStore.mem_without.1 mem
    exact ⟨fun same => apart (Scalar.text.inj same), b, inside, rfl, tagged⟩

theorem tagsFor_rename {old new i : Scalar} (apart : i ≠ new) :
    (x.rename old new).1.tagsFor i = if old = i then [] else x.tagsFor i := by
  have dropped : ((x.byNote.drop old).get? i).getD [] = if old = i then [] else (x.byNote.get? i).getD [] := by
    rw [Table.get?_drop]
    split <;> rfl
  unfold TagIndex.rename tagsFor
  dsimp only
  split
  · exact dropped
  · rw [Table.get?_put, if_neg apart.symm]
    exact dropped

theorem Current.rename (h : x.Current s) (old : String) {d : Document} (unused : s.find? d.id = none) :
    ((x.rename (.text old) (.text d.id)).1.update d).1.Current ((s.without old).put d) := by
  have away : x.tagsFor (.text d.id) = [] := by
    refine List.eq_nil_iff_forall_not_mem.2 fun t known => ?_
    obtain ⟨b, mem, path, _⟩ := (h.tags t _).1 known
    exact NoteStore.find?_eq_none_iff.1 unused b mem (Scalar.text.inj path).symm
  have coherent := (h.coherent.rename_iff (.text old) (.text d.id)).2 (Or.inr (by simp [away]))
  refine coherent.current_put fun t i apart => ?_
  rw [tagsFor_rename apart]
  split
  · rename_i here
    subst here
    constructor
    · exact fun none => absurd none List.not_mem_nil
    · rintro ⟨b, mem, path, _⟩
      exact ((NoteStore.mem_without.1 mem).2 (Scalar.text.inj path).symm).elim
  · rename_i other
    rw [h.tags]
    constructor
    · rintro ⟨b, mem, rfl, tagged⟩
      exact ⟨b, NoteStore.mem_without.2 ⟨mem, fun same => other (by rw [same])⟩, rfl, tagged⟩
    · rintro ⟨b, mem, rfl, tagged⟩
      exact ⟨b, (NoteStore.mem_without.1 mem).1, rfl, tagged⟩

theorem Current.ofPaths (h : x.Current s) : x.OfPaths :=
  ⟨h.coherent.tidy, fun t i mem => by
    obtain ⟨d, _, path, _⟩ := (h.tags t i).1 ((h.coherent.mirrored t i).1 mem)
    exact ⟨d.id, path⟩⟩

theorem Current.exists_toText (h : x.Current s) : ∃ text, x.toText = .ok text := by
  obtain ⟨text, written, _⟩ := h.ofPaths.exists_toText
  exact ⟨text, written⟩

end TagIndex

namespace StoredIndex

/-- An index was started: it can be used and is current, and no blob but its own has changed. -/
structure Begun (s : NoteStore) (b : BlobStore) (saved : Saved StoredIndex) : Prop where
  fault : saved.fault = none
  ready : saved.value.ready = true
  current : saved.value.index.Current s
  beside : b.Beside TagIndex.blobName saved.blobs

theorem rebuild_begins (x : StoredIndex) (s : NoteStore) (b : BlobStore) : Begun s b (x.rebuild s b) := by
  have current := TagIndex.current_ofNotes s
  obtain ⟨text, written⟩ := current.exists_toText
  have flushed : (flush ⟨TagIndex.ofNotes s, { x.writer with dirty := true }, x.ready⟩ b) =
      (Writer.flush { x.writer with dirty := true } b TagIndex.blobName (.ok text)).map
        (withWriter ⟨TagIndex.ofNotes s, { x.writer with dirty := true }, x.ready⟩) := by
    rw [flush, written]
  unfold rebuild
  dsimp only
  rw [flushed]
  have fault := Writer.flush_fault { x.writer with dirty := true } b TagIndex.blobName text
  have beside := Writer.flush_beside { x.writer with dirty := true } b TagIndex.blobName (.ok text)
  rw [if_neg (by simp [Saved.map, fault])]
  exact ⟨fault, rfl, current, beside⟩

/-- A start at which the blobs may have become others between reading and writing. -/
def startAmid (x : StoredIndex) (s : NoteStore) (before after : BlobStore) : Saved StoredIndex :=
  match x.load before with
  | .ok (some loaded) => ⟨(loaded.reconcile s).1, after, none⟩
  | .ok none => x.rebuild s after
  | .error f => ⟨x, after, some f⟩

theorem startAmid_self (x : StoredIndex) (s : NoteStore) (b : BlobStore) : x.startAmid s b b = x.start s b := rfl

/-- An index can be started unless its blob holds bytes that are no text. -/
theorem startAmid_begins (x : StoredIndex) {s : NoteStore} {before : BlobStore} (distinct : s.Distinct)
    (readable : before.read TagIndex.blobName ≠ .garbled) (after : BlobStore) :
    Begun s after (x.startAmid s before after) := by
  unfold startAmid
  cases loaded : x.load before with
  | error f =>
    unfold load at loaded
    split at loaded
    · cases loaded
    · cases loaded
    · cases loaded
    · rename_i garbled
      exact (readable garbled).elim
  | ok found =>
    cases found with
    | none => exact x.rebuild_begins s after
    | some y =>
      have ready : y.ready = true := by
        unfold load at loaded
        split at loaded
        · obtain ⟨_, _, rfl⟩ := Option.map_eq_some_iff.1 (Except.ok.inj loaded)
          rfl
        · cases loaded
        · cases loaded
        · cases loaded
      exact ⟨rfl, ready, (load_coherent loaded).current_reconcile distinct, .refl _ after⟩

theorem start_begins (x : StoredIndex) {s : NoteStore} {b : BlobStore} (distinct : s.Distinct)
    (readable : b.read TagIndex.blobName ≠ .garbled) : Begun s b (x.start s b) :=
  x.startAmid_begins distinct readable b

theorem flush_saves {x : StoredIndex} {s : NoteStore} (current : x.index.Current s) (b : BlobStore) :
    (x.flush b).fault = none ∧ b.Beside TagIndex.blobName (x.flush b).blobs := by
  obtain ⟨text, written⟩ := current.exists_toText
  unfold flush
  rw [written]
  exact ⟨Writer.flush_fault _ _ _ _, Writer.flush_beside _ _ _ _⟩

end StoredIndex
end VaultSchema
