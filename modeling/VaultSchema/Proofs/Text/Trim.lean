import Mathlib.Data.List.DropRight
import VaultSchema.Text.Basic

set_option autoImplicit false

namespace VaultSchema.Text

variable {α : Type} {p : α → Bool} {cs : List α}

def Trimmed (p : α → Bool) (cs : List α) : Prop :=
  (∀ c ∈ cs.head?, p c = false) ∧ ∀ c ∈ cs.getLast?, p c = false

instance (p : α → Bool) (cs : List α) : Decidable (Trimmed p cs) := by unfold Trimmed; infer_instance

theorem dropWhile_eq_self (ends : ∀ c ∈ cs.head?, p c = false) : cs.dropWhile p = cs := by
  cases cs with
  | nil => rfl
  | cons c rest => simp [ends c rfl]

theorem head?_dropWhile (p : α → Bool) (cs : List α) : ∀ c ∈ (cs.dropWhile p).head?, p c = false := by
  intro c mem
  have := List.head?_dropWhile_not p cs
  simp_all

theorem trimList_eq (p : α → Bool) (cs : List α) : trimList p cs = (cs.dropWhile p).rdropWhile p := rfl

theorem trimList_eq_self (trimmed : Trimmed p cs) : trimList p cs = cs := by
  have back : cs.reverse.dropWhile p = cs.reverse := dropWhile_eq_self (by simpa using trimmed.2)
  simp [trimList, dropWhile_eq_self trimmed.1, back]

theorem trimmed_trimList (p : α → Bool) (cs : List α) : Trimmed p (trimList p cs) := by
  constructor
  · intro c mem
    have front : trimList p cs <+: cs.dropWhile p := List.rdropWhile_prefix p _
    refine head?_dropWhile p cs c ?_
    cases left : trimList p cs with
    | nil => simp [left] at mem
    | cons d rest =>
      obtain ⟨tail, whole⟩ := left ▸ front
      rw [left] at mem
      simpa [← whole] using mem
  · have back := head?_dropWhile p (cs.dropWhile p).reverse
    simpa [trimList] using back

theorem trimList_isInfix (p : α → Bool) (cs : List α) : trimList p cs <:+: cs :=
  (List.rdropWhile_prefix p _).isInfix.trans (List.dropWhile_suffix p).isInfix

theorem trimList_eq_nil_iff : trimList p cs = [] ↔ ∀ c ∈ cs, p c = true := by
  rw [trimList_eq, List.rdropWhile_eq_nil_iff]
  constructor
  · intro all
    have gone : cs.dropWhile p = [] := by
      cases left : cs.dropWhile p with
      | nil => rfl
      | cons c rest =>
        have keeps := head?_dropWhile p cs c (by simp [left])
        simp [all c (by simp [left])] at keeps
    exact List.dropWhile_eq_nil_iff.1 gone
  · intro all c mem
    exact all c ((List.dropWhile_sublist p).mem mem)

@[simp] theorem toList_trimBy (p : Char → Bool) (s : String) : (trimBy p s).toList = trimList p s.toList := by
  simp [trimBy]

@[simp] theorem toList_trim (s : String) : (trim s).toList = trimList isBlank s.toList := toList_trimBy _ _

@[simp] theorem toList_trimStartBy (p : Char → Bool) (s : String) :
    (trimStartBy p s).toList = s.toList.dropWhile p := by simp [trimStartBy]

end VaultSchema.Text
