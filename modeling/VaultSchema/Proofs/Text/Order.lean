import VaultSchema.Text.Basic
import Mathlib.Data.List.Induction
import Mathlib.Data.String.Basic

set_option autoImplicit false

namespace VaultSchema.Text

section distinct

variable {α : Type} [BEq α]

def join (seen : List α) (x : α) : List α := if seen.contains x then seen else seen ++ [x]

theorem distinct_eq_foldl (xs : List α) : distinct xs = xs.foldl join [] := rfl

variable [LawfulBEq α]

theorem mem_join {seen : List α} {x a : α} : a ∈ join seen x ↔ a ∈ seen ∨ a = x := by
  unfold join
  split
  · rename_i h
    simp only [List.contains_iff_mem] at h
    constructor
    · exact Or.inl
    · rintro (h' | rfl)
      · exact h'
      · exact h
  · simp

theorem nodup_join {seen : List α} (x : α) (h : seen.Nodup) : (join seen x).Nodup := by
  unfold join
  split
  · exact h
  · rename_i new
    simp only [List.contains_iff_mem] at new
    simp only [List.nodup_append, List.nodup_cons, List.not_mem_nil, not_false_eq_true,
      List.nodup_nil, and_true, List.mem_singleton, true_and]
    refine ⟨h, ?_⟩
    rintro a ha _ rfl rfl
    exact new ha

theorem mem_foldl_join (xs seen : List α) (a : α) :
    a ∈ xs.foldl join seen ↔ a ∈ seen ∨ a ∈ xs := by
  induction xs generalizing seen with
  | nil => simp
  | cons x xs ih =>
    rw [List.foldl_cons, ih, mem_join, List.mem_cons, or_assoc]

@[simp] theorem mem_distinct (xs : List α) (a : α) : a ∈ distinct xs ↔ a ∈ xs := by
  rw [distinct_eq_foldl, mem_foldl_join]
  simp

theorem nodup_distinct (xs : List α) : (distinct xs).Nodup := by
  rw [distinct_eq_foldl]
  exact List.foldlRecOn xs join List.nodup_nil fun _ h x _ => nodup_join x h

theorem filter_join (p : α → Bool) (seen : List α) (x : α) :
    (join seen x).filter p = if p x then join (seen.filter p) x else seen.filter p := by
  unfold join
  by_cases there : x ∈ seen <;> cases kept : p x <;> simp [there, kept, List.filter_append]

theorem filter_foldl_join (p : α → Bool) (xs seen : List α) :
    (xs.foldl join seen).filter p = (xs.filter p).foldl join (seen.filter p) := by
  induction xs generalizing seen with
  | nil => rfl
  | cons x xs ih =>
    rw [List.foldl_cons, ih, filter_join, List.filter_cons]
    split <;> rfl

theorem filter_distinct (p : α → Bool) (xs : List α) : (distinct xs).filter p = distinct (xs.filter p) :=
  filter_foldl_join p xs []

theorem distinct_perm {xs ys : List α} (perm : xs.Perm ys) : (distinct xs).Perm (distinct ys) := by
  rw [List.perm_ext_iff_of_nodup (nodup_distinct xs) (nodup_distinct ys)]
  simp [perm.mem_iff]

theorem foldl_join_of_nodup {xs seen : List α} (nodup : (seen ++ xs).Nodup) :
    xs.foldl join seen = seen ++ xs := by
  induction xs generalizing seen with
  | nil => simp
  | cons x rest ih =>
    have new : x ∉ seen := fun mem => (List.nodup_append.1 nodup).2.2 x mem x (by simp) rfl
    rw [List.foldl_cons, join, if_neg (by simpa using new), ih (by simpa using nodup)]
    simp

theorem distinct_of_nodup {xs : List α} (nodup : xs.Nodup) : distinct xs = xs := foldl_join_of_nodup nodup

/-- The elements of a list, each once, as they are first met in it. -/
structure FirstMet (xs ys : List α) : Prop where
  mem : ∀ a, a ∈ ys ↔ a ∈ xs
  ordered : ys.Pairwise fun a b => xs.idxOf a < xs.idxOf b

theorem firstMet_distinct (xs : List α) : FirstMet xs (distinct xs) where
  mem := mem_distinct xs
  ordered := by
    induction xs using List.reverseRecOn with
    | nil => exact .nil
    | append_singleton xs x ih =>
      have earlier {a : α} (mem : a ∈ xs) : (xs ++ [x]).idxOf a = xs.idxOf a := List.idxOf_append_of_mem mem
      have before : (distinct xs).Pairwise fun a b => (xs ++ [x]).idxOf a < (xs ++ [x]).idxOf b := by
        refine ih.imp_of_mem fun first second less => ?_
        rwa [earlier ((mem_distinct xs _).1 first), earlier ((mem_distinct xs _).1 second)]
      rw [distinct_eq_foldl, List.foldl_append, ← distinct_eq_foldl]
      change (join (distinct xs) x).Pairwise _
      unfold join
      split
      · exact before
      · next new =>
        have new : x ∉ xs := by simpa using new
        refine List.pairwise_append.2 ⟨before, List.pairwise_singleton _ _, fun a mem b last => ?_⟩
        obtain rfl := List.mem_singleton.1 last
        have mem := (mem_distinct xs a).1 mem
        rw [earlier mem, List.idxOf_append_of_notMem new]
        exact (List.idxOf_lt_length_of_mem mem).trans_le (Nat.le_add_right _ _)

end distinct

theorem eq_of_ascending {α κ : Type} [Preorder κ] (key : α → κ) {xs ys : List α}
    (hx : xs.Pairwise fun a b => key a < key b) (hy : ys.Pairwise fun a b => key a < key b)
    (same : ∀ a, a ∈ xs ↔ a ∈ ys) : xs = ys := by
  have nodup : ∀ zs : List α, zs.Pairwise (fun a b => key a < key b) → zs.Nodup := by
    intro zs h
    refine h.imp ?_
    rintro a _ less rfl
    exact lt_irrefl _ less
  have perm : xs.Perm ys := (List.perm_ext_iff_of_nodup (nodup xs hx) (nodup ys hy)).2 same
  exact perm.eq_of_pairwise (fun _ _ _ _ less more => absurd less (lt_asymm more)) hx hy

theorem key_ne_of_nodup {α κ : Type} {key : α → κ} {front back : List α} {a b : α}
    (nodup : ((front ++ a :: back).map key).Nodup) (mem : b ∈ front) : key b ≠ key a := by
  rw [List.map_append] at nodup
  exact (List.nodup_append.1 nodup).2.2 _ (List.mem_map_of_mem mem) _ (by simp)

theorem mergeSort_pairwise {α : Type} (key : α → String) (xs : List α) :
    (xs.mergeSort fun a b => decide (key a ≤ key b)).Pairwise fun a b => key a ≤ key b := by
  refine (List.pairwise_mergeSort (fun a b c first second => ?_) (fun a b => ?_) xs).imp fun le => of_decide_eq_true le
  · simp only [decide_eq_true_eq] at *
    exact le_trans first second
  · simp only [Bool.or_eq_true, decide_eq_true_eq]
    exact le_total (key a) (key b)

theorem sorted_perm (xs : List String) : (sorted xs).Perm xs := List.mergeSort_perm _ _

@[simp] theorem mem_sorted (xs : List String) (a : String) : a ∈ sorted xs ↔ a ∈ xs :=
  (sorted_perm xs).mem_iff

theorem sorted_pairwise (xs : List String) : (sorted xs).Pairwise (· ≤ ·) := by
  have same : (fun a b : String => !decide (b < a)) = fun a b => decide (a ≤ b) := by
    funext a b
    rw [← decide_not, decide_eq_decide, not_lt]
  unfold sorted
  rw [same]
  exact mergeSort_pairwise id xs

theorem sorted_strict {xs : List String} (h : xs.Nodup) : (sorted xs).Pairwise (· < ·) :=
  (sorted_pairwise xs).imp₂ (fun _ _ le ne => lt_of_le_of_ne le ne)
    ((sorted_perm xs).nodup_iff.2 h)

theorem sorted_eq_of_perm {xs ys : List String} (perm : xs.Perm ys) : sorted xs = sorted ys := by
  have both : (sorted xs).Perm (sorted ys) := (sorted_perm xs).trans (perm.trans (sorted_perm ys).symm)
  exact both.eq_of_pairwise (fun a b _ _ hab hba => le_antisymm hab hba) (sorted_pairwise xs)
    (sorted_pairwise ys)

end VaultSchema.Text
