import Mathlib
import VaultSchema.Calendar.Moment

/-! Days and dates. Counting days goes through the years and months of the calendar without a gap,
so every day from the first of the year 1 to the last of the year 9999 is a date. -/

set_option autoImplicit false

namespace VaultSchema

namespace Calendar

def daysInYear (year : Nat) : Nat := if isLeap year then 366 else 365

theorem isLeap_iff (year : Nat) : isLeap year = true ↔ 4 ∣ year ∧ (¬100 ∣ year ∨ 400 ∣ year) := by
  simp [isLeap, Nat.dvd_iff_mod_eq_zero]

theorem daysBeforeYear_succ {year : Nat} (pos : 1 ≤ year) :
    daysBeforeYear (year + 1) = daysBeforeYear year + daysInYear year := by
  obtain ⟨y, rfl⟩ := Nat.exists_eq_add_of_le' pos
  have few : y / 100 ≤ y := Nat.div_le_self _ _
  simp only [daysBeforeYear, daysInYear, isLeap_iff, Nat.add_sub_cancel, Nat.succ_div]
  generalize y / 4 = quarters, y / 100 = centuries, y / 400 = eras at *
  split_ifs <;> omega

theorem daysBeforeYear_mono {a b : Nat} (le : a ≤ b) : daysBeforeYear a ≤ daysBeforeYear b := by
  refine monotone_nat_of_le_succ (fun year => ?_) le
  rcases Nat.eq_zero_or_pos year with rfl | pos
  · exact Nat.zero_le _
  · rw [daysBeforeYear_succ pos]
    exact Nat.le_add_right _ _

theorem daysBeforeMonth_succ (year : Nat) {month : Nat} (pos : 1 ≤ month) :
    daysBeforeMonth year (month + 1) = daysBeforeMonth year month + daysInMonth year month := by
  obtain ⟨m, rfl⟩ := Nat.exists_eq_add_of_le' pos
  simp [daysBeforeMonth, List.range_succ]

theorem daysBeforeMonth_end (year : Nat) : daysBeforeMonth year 13 = daysInYear year := by
  simp only [daysBeforeMonth, daysInYear, List.range_succ, daysInMonth]
  cases isLeap year <;> rfl

theorem daysBeforeMonth_mono (year : Nat) {a b : Nat} (pos : 1 ≤ a) (le : a ≤ b) :
    daysBeforeMonth year a ≤ daysBeforeMonth year b := by
  induction b, le using Nat.le_induction with
  | base => exact le_rfl
  | succ b le ih =>
    rw [daysBeforeMonth_succ year (pos.trans le)]
    omega

end Calendar

namespace Date

open Calendar

/-- The first and the last day of the calendar, counted from 1970-01-01. -/
theorem toDays_bounds (d : Date) : -719162 ≤ d.toDays ∧ d.toDays ≤ 2932896 := by
  have valid := d.valid
  simp only [isDate, Bool.and_eq_true, decide_eq_true_eq] at valid
  obtain ⟨⟨⟨⟨⟨year, early⟩, month⟩, last⟩, day⟩, fits⟩ := valid
  have inMonth := daysBeforeMonth_succ d.year month
  have inYear := daysBeforeMonth_mono d.year (show 1 ≤ d.month + 1 by omega) (show d.month + 1 ≤ 13 by omega)
  rw [daysBeforeMonth_end] at inYear
  have whole := daysBeforeYear_succ year
  have all := daysBeforeYear_mono (show d.year + 1 ≤ 10000 by omega)
  have total : daysBeforeYear 10000 = 3652059 := by decide
  simp only [toDays, epochDays]
  omega

theorem takeWhile_range {p : Nat → Bool} (n : Nat) :
    (∀ k < ((List.range n).takeWhile p).length, p k = true) ∧
      (((List.range n).takeWhile p).length < n → p ((List.range n).takeWhile p).length = false) := by
  have whole := List.takeWhile_append_dropWhile (p := p) (l := List.range n)
  constructor
  · intro k few
    have item : ((List.range n).takeWhile p)[k] = k := by
      rw [(List.takeWhile_prefix p).getElem few, List.getElem_range]
    exact List.mem_takeWhile_imp (item ▸ List.getElem_mem few)
  · intro few
    have rest : (List.range n).dropWhile p = (List.range n).drop ((List.range n).takeWhile p).length := by
      conv => rhs; arg 2; rw [← whole]
      rw [List.drop_left]
    have first := List.head?_dropWhile_not p (List.range n)
    rw [rest, List.head?_drop, List.getElem?_range few] at first
    simpa using first

theorem yearOf_bounds {days : Nat} (small : days < 3652059) :
    1 ≤ yearOf days ∧ yearOf days ≤ 9999 ∧ daysBeforeYear (yearOf days) ≤ days ∧
      days < daysBeforeYear (yearOf days + 1) := by
  have total : daysBeforeYear 10000 = 3652059 := by decide
  obtain ⟨passed, stopped⟩ := takeWhile_range (p := fun k => daysBeforeYear (days / 366 + 1 + k + 1) ≤ days) 30
  unfold yearOf
  dsimp only
  generalize ((List.range 30).takeWhile _).length = steps at *
  simp only [decide_eq_true_eq, decide_eq_false_iff_not, not_le] at passed stopped
  have front : daysBeforeYear (days / 366 + 1 + steps) ≤ days := by
    cases steps with
    | zero =>
      simp only [daysBeforeYear]
      omega
    | succ k => exact passed k (Nat.lt_succ_self k)
  have early : days / 366 + 1 + steps ≤ 9999 := by
    by_contra late
    have := daysBeforeYear_mono (show 10000 ≤ days / 366 + 1 + steps by omega)
    omega
  refine ⟨by omega, early, front, ?_⟩
  have few : steps < 30 := by
    by_contra many
    have := passed 29 (by omega)
    simp only [daysBeforeYear] at this
    omega
  exact stopped few

theorem monthAndDay_bounds {year fuel month left : Nat} (pos : 1 ≤ month) (all : month + fuel = 13)
    (small : daysBeforeMonth year month + left < daysInYear year) :
    1 ≤ (monthAndDay year fuel month left).1 ∧ (monthAndDay year fuel month left).1 ≤ 12 ∧
      1 ≤ (monthAndDay year fuel month left).2 ∧
      (monthAndDay year fuel month left).2 ≤ daysInMonth year (monthAndDay year fuel month left).1 := by
  induction fuel generalizing month left with
  | zero =>
    obtain rfl : month = 13 := by omega
    rw [daysBeforeMonth_end] at small
    omega
  | succ fuel ih =>
    unfold monthAndDay
    split
    · rename_i inside
      exact ⟨pos, by omega, Nat.succ_pos left, inside⟩
    · refine ih (by omega) (by omega) ?_
      rw [daysBeforeMonth_succ year pos]
      omega

theorem exists_ofDays? {days : Int} (low : -719162 ≤ days) (high : days ≤ 2932896) : ∃ d, ofDays? days = some d := by
  obtain ⟨n, count⟩ := Int.eq_ofNat_of_zero_le (show 0 ≤ days + epochDays by simp only [epochDays]; omega)
  have small : n < 3652059 := by simp only [epochDays] at count; omega
  obtain ⟨first, last, front, behind⟩ := yearOf_bounds small
  rw [daysBeforeYear_succ first] at behind
  have start : daysBeforeMonth (yearOf n) 1 = 0 := rfl
  obtain ⟨month, months, day, fits⟩ :=
    @monthAndDay_bounds (yearOf n) 12 1 (n - daysBeforeYear (yearOf n)) le_rfl rfl (by omega)
  have valid : isDate (yearOf n) (monthAndDay (yearOf n) 12 1 (n - daysBeforeYear (yearOf n))).1
      (monthAndDay (yearOf n) 12 1 (n - daysBeforeYear (yearOf n))).2 = true := by
    simp [isDate, first, last, month, months, day, fits]
  refine ⟨⟨_, _, _, valid⟩, ?_⟩
  simp only [ofDays?, count, Int.toNat_natCast, ofFields?, valid]
  rfl

end Date
end VaultSchema
