import VaultSchema.Proofs.Index.Coherence
import Mathlib.Data.List.Perm.Basic

/-! Members of tags: those that are listed for a name, and their order. Texts have an order among
each other, and so have numbers; members are sorted just if any two of them have one. -/

set_option autoImplicit false

namespace VaultSchema

/-- Two scalars have an order: both are texts, or both are numbers or truth values. -/
def Scalar.Comparable (a b : Scalar) : Prop :=
  (Json.isTextKey a = true ∧ Json.isTextKey b = true) ∨ (Json.isNumberKey a = true ∧ Json.isNumberKey b = true)

instance : DecidableRel Scalar.Comparable := fun a b =>
  inferInstanceAs (Decidable ((Json.isTextKey a = true ∧ Json.isTextKey b = true) ∨ _))

namespace TagIndex

variable {x : TagIndex} {i : Scalar} {t : String} {ids sorted : List Scalar}

theorem mem_insertAll (members found : List Scalar) :
    i ∈ members.foldl Members.insert found ↔ i ∈ found ∨ i ∈ members := by
  induction members generalizing found with
  | nil => simp
  | cons j members ih => rw [List.foldl_cons, ih, Members.mem_insert, List.mem_cons, or_assoc]

theorem nodup_insertAll (members : List Scalar) {found : List Scalar} (nodup : found.Nodup) :
    (members.foldl Members.insert found).Nodup := by
  induction members generalizing found with
  | nil => exact nodup
  | cons j members ih => exact ih (Members.nodup_insert nodup j)

theorem mem_insertRows (rows : List (String × List Scalar)) (found : List Scalar) :
    i ∈ rows.foldl (fun found r => r.2.foldl Members.insert found) found ↔ i ∈ found ∨ ∃ r ∈ rows, i ∈ r.2 := by
  induction rows generalizing found with
  | nil => simp
  | cons r rows ih =>
    rw [List.foldl_cons, ih, mem_insertAll]
    simp [or_assoc]

theorem nodup_insertRows (rows : List (String × List Scalar)) {found : List Scalar} (nodup : found.Nodup) :
    (rows.foldl (fun found r => r.2.foldl Members.insert found) found).Nodup := by
  induction rows generalizing found with
  | nil => exact nodup
  | cons r rows ih => exact ih (nodup_insertAll r.2 nodup)

theorem nodup_withTag (x : TagIndex) (tag : String) : (x.withTag tag).Nodup := nodup_insertRows _ List.nodup_nil

theorem exists_row_of_mem_withTag {tag : String} (mem : i ∈ x.withTag tag) : ∃ r ∈ x.byTag.rows,
    (r.1 == bareTag tag || Folder.isBelow r.1 (bareTag tag)) = true ∧ i ∈ r.2 := by
  unfold withTag at mem
  rw [mem_insertRows] at mem
  rcases mem with ⟨⟨⟩⟩ | ⟨r, row, mem⟩
  obtain ⟨row, fits⟩ := List.mem_filter.1 row
  exact ⟨r, row, fits, mem⟩

theorem mem_withTag (tidy : TidyTags x.byTag) {tag : String} : i ∈ x.withTag tag ↔
    ∃ t, (t == bareTag tag || Folder.isBelow t (bareTag tag)) = true ∧ i ∈ x.members t := by
  constructor
  · intro mem
    obtain ⟨r, row, fits, mem⟩ := exists_row_of_mem_withTag mem
    refine ⟨r.1, fits, ?_⟩
    unfold members
    rw [(Table.mem_rows tidy.keys).1 row]
    exact mem
  · rintro ⟨t, fits, mem⟩
    unfold withTag
    unfold members at mem
    rw [mem_insertRows]
    cases row : x.byTag.get? t with
    | none => simp [row] at mem
    | some found =>
      rw [row] at mem
      exact Or.inr ⟨(t, found), List.mem_filter.2 ⟨Table.mem_rows_of_get? row, fits⟩, mem⟩

def ListsTexts (x : TagIndex) : Prop := ∀ r ∈ x.byTag.rows, ∀ i ∈ r.2, ∃ id, i = .text id

/-- Any two of the members have an order. -/
def Sortable (ids : List Scalar) : Prop := ids.Pairwise Scalar.Comparable

instance : DecidablePred Sortable := fun ids => inferInstanceAs (Decidable (ids.Pairwise Scalar.Comparable))

theorem sortable_iff : Sortable ids ↔ ids.length ≤ 1 ∨ (∀ i ∈ ids, Json.isTextKey i = true) ∨
    ∀ i ∈ ids, Json.isNumberKey i = true := by
  unfold Sortable
  constructor
  · intro sortable
    match ids, sortable with
    | [], _ => exact Or.inl (Nat.zero_le _)
    | [_], _ => exact Or.inl le_rfl
    | a :: b :: rest, sortable =>
      obtain ⟨first, _⟩ := List.pairwise_cons.1 sortable
      -- The first member is a text or a number, but not both, and so it tells of what kind all are.
      cases a with
      | text s =>
        refine Or.inr (Or.inl (List.forall_mem_cons.2 ⟨rfl, fun i mem => ?_⟩))
        rcases first i mem with texts | ⟨⟨⟩, _⟩
        exact texts.2
      | bool | int | float =>
        refine Or.inr (Or.inr (List.forall_mem_cons.2 ⟨rfl, fun i mem => ?_⟩))
        rcases first i mem with ⟨⟨⟩, _⟩ | numbers
        exact numbers.2
      | null | date | moment | bytes => rcases first b (by simp) with ⟨⟨⟩, _⟩ | ⟨⟨⟩, _⟩
  · rintro (few | texts | numbers)
    · match ids, few with
      | [], _ => exact List.Pairwise.nil
      | [_], _ => exact List.pairwise_singleton ..
    · exact List.pairwise_of_forall_mem_list fun a ha b hb => Or.inl ⟨texts a ha, texts b hb⟩
    · exact List.pairwise_of_forall_mem_list fun a ha b hb => Or.inr ⟨numbers a ha, numbers b hb⟩

theorem sortMembers_eq (ids : List Scalar) : sortMembers ids = if Sortable ids then
    .ok (((ids.map fun id => (id, ())).mergeSort fun a b => !Json.keyLess b.1 a.1).map Prod.fst)
    else .error .unorderedKeys := by
  have condition : (decide ((ids.map fun id => (id, ())).length ≤ 1) ||
      (ids.map fun id => (id, ())).all (Json.isTextKey ·.1) ||
      (ids.map fun id => (id, ())).all (Json.isNumberKey ·.1)) = true ↔ Sortable ids := by
    simp [sortable_iff, or_assoc]
  unfold sortMembers Json.sortMembers
  simp only [condition]
  split <;> rfl

theorem sortMembers_eq_ok (sorts : sortMembers ids = .ok sorted) : Sortable ids ∧ sorted.Perm ids := by
  rw [sortMembers_eq] at sorts
  split at sorts
  · rename_i sortable
    cases sorts
    refine ⟨sortable, ((List.mergeSort_perm _ _).map Prod.fst).trans (List.Perm.of_eq ?_)⟩
    simp [Function.comp_def]
  · cases sorts

theorem Sortable.exists_sorted (h : Sortable ids) : ∃ sorted, sortMembers ids = .ok sorted :=
  ⟨_, (sortMembers_eq ids).trans (if_pos h)⟩

theorem sortMembers_unsortable (unlike : ¬ Sortable ids) : sortMembers ids = .error .unorderedKeys :=
  (sortMembers_eq ids).trans (if_neg unlike)

theorem exists_paths {l : List Scalar} (all : ∀ i ∈ l, ∃ id, i = .text id) :
    ∃ ids : List String, l = ids.map .text := by
  induction l with
  | nil => exact ⟨[], rfl⟩
  | cons i l ih =>
    obtain ⟨id, rfl⟩ := all i (by simp)
    obtain ⟨ids, rfl⟩ := ih fun j mem => all j (by simp [mem])
    exact ⟨id :: ids, rfl⟩

theorem sortable_texts (ids : List String) : Sortable (ids.map .text) :=
  sortable_iff.2 (Or.inr (Or.inl (by simp [Json.isTextKey])))

theorem sortMembers_texts (ids : List String) :
    sortMembers (ids.map .text) = .ok ((Text.sorted ids).map .text) := by
  have moved : (Text.sorted ids).map (fun s => (Scalar.text s, ())) =
      (ids.map fun s => (Scalar.text s, ())).mergeSort fun a b => !Json.keyLess b.1 a.1 :=
    List.map_mergeSort fun _ _ _ _ => rfl
  have pairs : (ids.map Scalar.text).map (fun id => (id, ())) = ids.map fun s => (Scalar.text s, ()) :=
    List.map_map
  rw [sortMembers_eq, if_pos (sortable_texts ids), pairs, ← moved]
  simp [List.map_map, Function.comp_def]

/-- The same paths, listed in another order, come to one order. -/
theorem sortMembers_perm {js : List Scalar} (perm : ids.Perm js) (paths : ∀ i ∈ ids, ∃ id, i = .text id) :
    sortMembers ids = sortMembers js := by
  obtain ⟨xs, rfl⟩ := exists_paths paths
  obtain ⟨ys, rfl⟩ := exists_paths fun i mem => paths i (perm.mem_iff.2 mem)
  have injective : Function.Injective Scalar.text := fun _ _ => Scalar.text.inj
  rw [List.map_perm_map_iff injective] at perm
  rw [sortMembers_texts, sortMembers_texts, Text.sorted_eq_of_perm perm]

end TagIndex
end VaultSchema
