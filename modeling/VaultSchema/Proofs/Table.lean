import VaultSchema.Table
import Mathlib.Data.List.Nodup

set_option autoImplicit false

namespace VaultSchema.Table

variable {κ α : Type} [DecidableEq κ] {t : Table κ α}

theorem keys_put (t : Table κ α) (k : κ) (a : α) :
    (t.put k a).keys = if k ∈ t.keys then t.keys else t.keys ++ [k] := by
  obtain ⟨rows⟩ := t
  unfold put keys
  dsimp only
  induction rows with
  | nil => rfl
  | cons r rows ih =>
    unfold putRow
    by_cases same : r.1 = k
    · simp [same]
    · have other : ¬ k = r.1 := fun h => same h.symm
      simp only [if_neg same, List.map_cons, ih, List.mem_cons, other, false_or]
      split <;> rfl

theorem put_new {t : Table κ α} {k : κ} (new : k ∉ t.keys) (a : α) : t.put k a = ⟨t.rows ++ [(k, a)]⟩ := by
  obtain ⟨rows⟩ := t
  unfold put
  congr 1
  induction rows with
  | nil => rfl
  | cons r rows ih =>
    simp only [keys, List.map_cons, List.mem_cons, not_or] at new ih
    rw [putRow, if_neg (Ne.symm new.1), ih new.2]
    rfl

theorem of_mem_put {t : Table κ α} {k : κ} {a : α} {r : κ × α} (mem : r ∈ (t.put k a).rows) :
    r = (k, a) ∨ r ∈ t.rows := by
  obtain ⟨rows⟩ := t
  unfold put at mem
  dsimp only at mem ⊢
  induction rows with
  | nil => exact Or.inl (List.mem_singleton.1 mem)
  | cons q rows ih =>
    unfold putRow at mem
    split at mem
    · exact (List.mem_cons.1 mem).imp_right (List.mem_cons_of_mem _)
    · rcases List.mem_cons.1 mem with rfl | mem
      · exact Or.inr List.mem_cons_self
      · exact (ih mem).imp_right (List.mem_cons_of_mem _)

theorem foldl_put {rows : List (κ × α)} {t : Table κ α} (distinct : (rows.map Prod.fst).Nodup)
    (new : ∀ r ∈ rows, r.1 ∉ t.keys) :
    rows.foldl (fun t r => t.put r.1 r.2) t = ⟨t.rows ++ rows⟩ := by
  induction rows generalizing t with
  | nil => simp
  | cons r rows ih =>
    obtain ⟨first, distinct⟩ := List.nodup_cons.1 distinct
    rw [List.foldl_cons, put_new (new r (by simp)), ih distinct]
    · simp
    · intro q mem
      have apart : q.1 ≠ r.1 := fun same => first (List.mem_map.2 ⟨q, mem, same⟩)
      have before := new q (by simp [mem])
      simp only [keys, List.map_append, List.mem_append] at before ⊢
      simp [before, apart]

theorem keys_drop (t : Table κ α) (k : κ) : (t.drop k).keys = t.keys.filter (· ≠ k) := by
  unfold drop keys
  rw [List.filter_map]
  rfl

theorem nodup_put (h : t.keys.Nodup) (k : κ) (a : α) : (t.put k a).keys.Nodup := by
  rw [keys_put]
  split
  · exact h
  · rename_i new
    refine List.nodup_append.2 ⟨h, by simp, ?_⟩
    rintro j hj _ hk rfl
    rw [List.mem_singleton] at hk
    exact new (hk ▸ hj)

theorem nodup_drop (h : t.keys.Nodup) (k : κ) : (t.drop k).keys.Nodup := by
  rw [keys_drop]
  exact h.filter _

omit [DecidableEq κ] in
theorem nodup_keep (h : t.keys.Nodup) (p : κ → α → Bool) : (t.keep p).keys.Nodup :=
  List.Nodup.sublist (List.filter_sublist.map Prod.fst) h

theorem mem_rows_of_get? {k : κ} {a : α} (found : t.get? k = some a) : (k, a) ∈ t.rows := by
  unfold get? at found
  obtain ⟨⟨j, b⟩, first, rfl⟩ := Option.map_eq_some_iff.1 found
  obtain rfl : j = k := by simpa using List.find?_some first
  exact List.mem_of_find?_eq_some first

theorem mem_rows (h : t.keys.Nodup) {k : κ} {a : α} : (k, a) ∈ t.rows ↔ t.get? k = some a := by
  refine ⟨?_, mem_rows_of_get?⟩
  intro row
  unfold get?
  cases first : t.rows.find? fun r => r.1 = k with
  | none => simpa using List.find?_eq_none.1 first _ row
  | some r =>
    have key : r.1 = k := by simpa using List.find?_some first
    have same : r = (k, a) :=
      List.inj_on_of_nodup_map h (List.mem_of_find?_eq_some first) row key
    rw [Option.map_some, same]

theorem mem_values (h : t.keys.Nodup) {a : α} : a ∈ t.values ↔ ∃ k, t.get? k = some a := by
  simp only [values, List.mem_map]
  constructor
  · rintro ⟨⟨k, _⟩, row, rfl⟩
    exact ⟨k, (mem_rows h).1 row⟩
  · rintro ⟨k, found⟩
    exact ⟨(k, a), (mem_rows h).2 found, rfl⟩

theorem mem_keys {k : κ} : k ∈ t.keys ↔ (t.get? k).isSome := by
  unfold keys get?
  rw [Option.isSome_map, List.find?_isSome, List.mem_map]
  simp only [decide_eq_true_eq]

theorem get?_keep (h : t.keys.Nodup) (p : κ → α → Bool) (k : κ) :
    (t.keep p).get? k = (t.get? k).filter (p k) := by
  cases found : (t.keep p).get? k with
  | some a =>
    obtain ⟨row, kept⟩ := List.mem_filter.1 (mem_rows_of_get? found)
    rw [(mem_rows h).1 row, Option.filter_some, if_pos kept]
  | none =>
    cases there : t.get? k with
    | none => rfl
    | some a =>
      cases kept : p k a with
      | false => rw [Option.filter_some, if_neg (by simp [kept])]
      | true =>
        have row : (k, a) ∈ (t.keep p).rows := List.mem_filter.2 ⟨mem_rows_of_get? there, kept⟩
        rw [(mem_rows (nodup_keep h p)).1 row] at found
        cases found

end VaultSchema.Table
