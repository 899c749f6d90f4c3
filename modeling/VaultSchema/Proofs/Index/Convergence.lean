import VaultSchema.Index.Stored
import VaultSchema.Proofs.Index.Members

/-! What the index of tags comes to. A coherent index that is brought up to date with a store has
the rows of an index built from the store, whatever it held before. -/

set_option autoImplicit false

namespace VaultSchema

theorem collect_map {ε α β : Type} {f : α → Except ε β} {g : α → β} {l : List α}
    (all : ∀ a ∈ l, f a = .ok (g a)) : collect (l.map f) = .ok (l.map g) := by
  induction l with
  | nil => rfl
  | cons a l ih =>
    rw [List.map_cons, collect, all a (by simp), ih fun b mem => all b (by simp [mem])]
    rfl

namespace TagIndex

variable {x y : TagIndex} {i : Scalar} {t : String}

def sortedTags (x : TagIndex) : List String := (x.byTag.rows.mergeSort fun a b => decide (a.1 ≤ b.1)).map Prod.fst

theorem mem_sortedTags : t ∈ x.sortedTags ↔ (x.byTag.get? t).isSome := by
  rw [← Table.mem_keys]
  unfold sortedTags Table.keys
  exact ((List.mergeSort_perm _ _).map Prod.fst).mem_iff

theorem sortedTags_strict (h : TidyTags x.byTag) : x.sortedTags.Pairwise (· < ·) := by
  have ascending := Text.mergeSort_pairwise Prod.fst x.byTag.rows
  have nodup : x.sortedTags.Nodup := ((List.mergeSort_perm _ _).map Prod.fst).nodup_iff.2 h.keys
  unfold sortedTags at nodup ⊢
  rw [List.pairwise_map]
  exact ascending.imp₂ (fun a b le ne => lt_of_le_of_ne le ne) (List.pairwise_map.1 nodup)

theorem rows_eq (h : TidyTags x.byTag) : x.byTag.rows.mergeSort (fun a b => decide (a.1 ≤ b.1)) =
    x.sortedTags.map fun t => (t, x.members t) := by
  have same : ∀ r ∈ x.byTag.rows.mergeSort (fun a b => decide (a.1 ≤ b.1)), (r.1, x.members r.1) = r := by
    intro r mem
    have row := (Table.mem_rows h.keys).1 ((List.mergeSort_perm _ _).mem_iff.1 mem)
    unfold members
    rw [row, Option.getD_some]
  unfold sortedTags
  rw [List.map_map]
  exact ((List.map_congr_left same).trans (List.map_id _)).symm

theorem isSome_iff_members (h : TidyTags x.byTag) : (x.byTag.get? t).isSome ↔ ∃ i, i ∈ x.members t := by
  unfold members
  cases row : x.byTag.get? t with
  | none => simp
  | some members =>
    simpa using List.exists_mem_of_ne_nil members (h.rows t members row).1

theorem toRows_eq (h : TidyTags x.byTag) {sorted : String → List Scalar}
    (sorts : ∀ t, sortMembers (x.members t) = .ok (sorted t)) :
    x.toRows = .ok (x.sortedTags.map fun t => (t, sorted t)) := by
  unfold toRows
  rw [rows_eq h, List.map_map]
  refine collect_map fun t _ => ?_
  rw [Function.comp_apply, sorts]
  rfl

/-- Indexes in which each tag has the same members, all of them paths, have the same rows. -/
theorem toRows_congr (hx : TidyTags x.byTag) (hy : TidyTags y.byTag)
    (same : ∀ t i, i ∈ x.members t ↔ i ∈ y.members t) (paths : ∀ t, ∀ i ∈ x.members t, ∃ id, i = .text id) :
    x.toRows = y.toRows ∧ ∃ rows, x.toRows = .ok rows := by
  have tags : x.sortedTags = y.sortedTags := by
    refine Text.eq_of_ascending id (sortedTags_strict hx) (sortedTags_strict hy) fun t => ?_
    simp only [mem_sortedTags, isSome_iff_members hx, isSome_iff_members hy, same]
  have sorts : ∀ t, ∃ sorted, sortMembers (x.members t) = .ok sorted ∧
      sortMembers (y.members t) = .ok sorted := by
    intro t
    obtain ⟨ids, texts⟩ := exists_paths (paths t)
    have perm : (x.members t).Perm (y.members t) :=
      (List.perm_ext_iff_of_nodup (hx.nodup t) (hy.nodup t)).2 (same t)
    rw [← sortMembers_perm perm (paths t), texts, sortMembers_texts]
    exact ⟨_, rfl, rfl⟩
  choose sorted hx' hy' using sorts
  have rows := toRows_eq hx hx'
  rw [rows, toRows_eq hy hy', tags]
  exact ⟨rfl, _, rfl⟩

theorem Coherent.addNotes (h : x.Coherent) (ds : List Document) :
    (ds.foldl (fun x d => x.addTags (.text d.id) d.tags) x).Coherent ∧
      ∀ t i, t ∈ (ds.foldl (fun x d => x.addTags (.text d.id) d.tags) x).tagsFor i ↔
        t ∈ x.tagsFor i ∨ ∃ d ∈ ds, i = .text d.id ∧ t ∈ d.tags := by
  induction ds generalizing x with
  | nil => exact ⟨h, by simp⟩
  | cons d ds ih =>
    obtain ⟨coherent, tags⟩ := ih (h.addTags (.text d.id) d.tags)
    refine ⟨coherent, fun t i => ?_⟩
    rw [List.foldl_cons, tags, mem_tagsFor_addTags, List.exists_mem_cons_iff, or_assoc]

theorem ofNotes_coherent (s : NoteStore) : (ofNotes s).Coherent ∧
    ∀ t i, t ∈ (ofNotes s).tagsFor i ↔ ∃ d ∈ s.notes, i = .text d.id ∧ t ∈ d.tags := by
  obtain ⟨coherent, tags⟩ := coherent_empty.addNotes s.listed
  refine ⟨coherent, fun t i => ?_⟩
  unfold ofNotes
  rw [tags]
  simp [tagsFor]

theorem Coherent.updateAll (h : x.Coherent) {ds : List Document} (distinct : (ds.map (·.id)).Nodup) :
    (x.updateAll ds).1.Coherent ∧ ∀ t i, t ∈ (x.updateAll ds).1.tagsFor i ↔
      (∃ d ∈ ds, i = .text d.id ∧ t ∈ d.tags) ∨ (∀ d ∈ ds, i ≠ .text d.id) ∧ t ∈ x.tagsFor i := by
  induction ds generalizing x with
  | nil => exact ⟨h, by simp [TagIndex.updateAll]⟩
  | cons d ds ih =>
    obtain ⟨first, distinct⟩ := List.nodup_cons.1 distinct
    obtain ⟨coherent, updated⟩ := h.update d
    obtain ⟨coherent, tags⟩ := ih coherent distinct
    refine ⟨coherent, fun t i => ?_⟩
    change t ∈ ((x.update d).1.updateAll ds).1.tagsFor i ↔ _
    rw [tags, updated, List.exists_mem_cons_iff, List.forall_mem_cons]
    by_cases here : i = .text d.id
    · subst here
      have apart : ∀ b ∈ ds, d.id ≠ b.id := fun b mem same => first (List.mem_map.2 ⟨b, mem, same.symm⟩)
      have none : ¬ ∃ b ∈ ds, d.id = b.id ∧ t ∈ b.tags := fun ⟨b, mem, same, _⟩ => apart b mem same
      simpa [none] using fun _ => apart
    · simp [here]

theorem Coherent.removeAll (h : x.Coherent) (ids : List Scalar) : (x.removeAll ids).1.Coherent ∧
    ∀ t i, t ∈ (x.removeAll ids).1.tagsFor i ↔ i ∉ ids ∧ t ∈ x.tagsFor i := by
  induction ids generalizing x with
  | nil => exact ⟨h, by simp [TagIndex.removeAll]⟩
  | cons id ids ih =>
    obtain ⟨coherent, removed⟩ := h.remove id
    obtain ⟨coherent, tags⟩ := ih coherent
    refine ⟨coherent, fun t i => ?_⟩
    change t ∈ ((x.remove id).1.removeAll ids).1.tagsFor i ↔ _
    rw [tags, removed, List.mem_cons]
    tauto

theorem Coherent.reconcile (h : x.Coherent) {s : NoteStore} (distinct : s.Distinct) :
    (x.reconcile s).1.Coherent ∧
      ∀ t i, t ∈ (x.reconcile s).1.tagsFor i ↔ ∃ d ∈ s.notes, i = .text d.id ∧ t ∈ d.tags := by
  have ids : (s.listed.map (·.id)).Nodup := ((s.listed_perm).map _).nodup_iff.2 distinct
  obtain ⟨coherent, updated⟩ := h.updateAll ids
  obtain ⟨coherent, tags⟩ := coherent.removeAll
    (Members.without (x.updateAll s.listed).1.byNote.keys (s.ids.map Scalar.text))
  refine ⟨coherent, fun t i => ?_⟩
  change t ∈ ((x.updateAll s.listed).1.removeAll _).1.tagsFor i ↔ _
  rw [tags, Members.mem_without, Table.mem_keys, updated]
  have present : i ∈ s.ids.map Scalar.text ↔ ∃ d ∈ s.notes, i = .text d.id := by
    simp [NoteStore.ids, eq_comm]
  simp only [NoteStore.mem_listed]
  constructor
  · rintro ⟨kept, known | ⟨away, stale⟩⟩
    · exact known
    · have gone : i ∉ s.ids.map Scalar.text := fun mem => by
        obtain ⟨d, there, same⟩ := present.1 mem
        exact away d there same
      refine (kept ⟨?_, gone⟩).elim
      have row := (updated t i).2 (Or.inr ⟨by simpa using away, stale⟩)
      unfold tagsFor at row
      cases found : (x.updateAll s.listed).1.byNote.get? i with
      | none => simp [found] at row
      | some _ => rfl
  · rintro ⟨d, mem, same, tagged⟩
    exact ⟨fun gone => gone.2 (present.2 ⟨d, mem, same⟩), Or.inl ⟨d, mem, same, tagged⟩⟩

/-- A coherent index that knows the tags of the notes of a store has the rows of one built from it. -/
theorem Coherent.toRows_eq (h : x.Coherent) {s : NoteStore}
    (tags : ∀ t i, t ∈ x.tagsFor i ↔ ∃ d ∈ s.notes, i = .text d.id ∧ t ∈ d.tags) :
    x.toRows = (ofNotes s).toRows ∧ ∃ rows, (ofNotes s).toRows = .ok rows := by
  obtain ⟨built, ofNotes⟩ := ofNotes_coherent s
  have same : ∀ t i, i ∈ x.members t ↔ i ∈ (TagIndex.ofNotes s).members t := fun t i => by
    rw [h.mirrored, built.mirrored, tags, ofNotes]
  obtain ⟨rows, ok⟩ := toRows_congr h.tidy built.tidy same fun t i mem => by
    obtain ⟨d, _, path, _⟩ := (tags t i).1 ((h.mirrored t i).1 mem)
    exact ⟨d.id, path⟩
  exact ⟨rows, rows ▸ ok⟩

theorem Coherent.toRows_reconcile (h : x.Coherent) {s : NoteStore} (distinct : s.Distinct) :
    (x.reconcile s).1.toRows = (ofNotes s).toRows ∧ ∃ rows, (ofNotes s).toRows = .ok rows := by
  obtain ⟨coherent, tags⟩ := h.reconcile distinct
  exact coherent.toRows_eq tags

theorem Coherent.addRow (h : x.Coherent) (r : String × List Scalar) : (TagIndex.addRow x r).Coherent :=
  List.foldlRecOn r.2 _ h fun _ h id _ => h.addTags id [r.1]

/-- An index that was read is coherent, whatever its rows were. -/
theorem ofRows_coherent (rows : List (String × List Scalar)) : (ofRows rows).Coherent :=
  List.foldlRecOn _ TagIndex.addRow coherent_empty fun _ h r _ => h.addRow r

theorem ofText?_coherent {text : String} (read : ofText? text = some x) : x.Coherent := by
  obtain ⟨v, _, made⟩ := Option.bind_eq_some_iff.1 read
  unfold ofValue? at made
  split at made
  · split at made
    · split at made
      · obtain ⟨rows, _, rfl⟩ := Option.map_eq_some_iff.1 made
        exact ofRows_coherent rows
      · cases made
    · cases made
  · cases made

end TagIndex
end VaultSchema
