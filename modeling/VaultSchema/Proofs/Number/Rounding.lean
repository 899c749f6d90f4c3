import Mathlib
import VaultSchema.Number.Decimal

set_option autoImplicit false

namespace VaultSchema.Binary64

/-- A significand of 53 binary digits holds the number of units. -/
def Representable (units : Nat) : Prop := 2 ^ spareBits units ∣ units

theorem spareBits_small {n : Nat} (small : n < 2 ^ 53) : spareBits n = 0 := by
  unfold spareBits
  by_cases zero : n = 0
  · subst zero
    decide
  · have := (Nat.log2_lt zero).2 small
    omega

theorem spareBits_eq {n s : Nat} (low : 2 ^ (52 + s) ≤ n) (high : n < 2 ^ (53 + s)) :
    spareBits n = s := by
  have pos : n ≠ 0 := by
    have := Nat.two_pow_pos (52 + s)
    omega
  have most := (Nat.log2_lt pos).2 high
  have least := (Nat.le_log2 pos).2 low
  unfold spareBits
  omega

theorem spareBits_bounds (n : Nat) :
    n < 2 ^ (53 + spareBits n) ∧ (0 < spareBits n → 2 ^ (52 + spareBits n) ≤ n) := by
  by_cases small : n < 2 ^ 53
  · rw [spareBits_small small]
    exact ⟨small, fun some => absurd some (by decide)⟩
  · have pos : n ≠ 0 := by omega
    have most := Nat.lt_log2_self (n := n)
    have least := Nat.log2_self_le pos
    have enough := (Nat.le_log2 pos).2 (Nat.not_lt.1 small)
    have up : 53 + spareBits n = n.log2 + 1 := by unfold spareBits; omega
    have down : 52 + spareBits n = n.log2 := by omega
    rw [up, down]
    exact ⟨most, fun _ => least⟩

/-- A quotient rounds to a whole number from which it is at most half away, if that number is even or
nearer. -/
theorem roundHalfEven_eq {n d m : Nat} (pos : 0 < d) (low : 2 * (m * d) ≤ 2 * n + d)
    (high : 2 * n ≤ 2 * (m * d) + d)
    (even : 2 * (m * d) = 2 * n + d ∨ 2 * n = 2 * (m * d) + d → m % 2 = 0) :
    roundHalfEven n d = m := by
  have parts := Nat.div_add_mod n d
  have small := Nat.mod_lt n pos
  unfold roundHalfEven
  dsimp only
  generalize n / d = q at *
  generalize n % d = r at *
  rw [Nat.mul_comm] at parts
  have most : m ≤ q + 1 := by
    by_contra more
    have := Nat.mul_le_mul_right d (show q + 2 ≤ m by omega)
    rw [Nat.add_mul] at this
    omega
  have least : q ≤ m := by
    by_contra less
    have := Nat.mul_le_mul_right d (show m + 1 ≤ q by omega)
    rw [Nat.add_mul] at this
    omega
  obtain rfl | rfl : m = q ∨ m = q + 1 := by omega
  · split
    · rfl
    · have : m % 2 = 0 := even (by omega)
      rw [if_neg (by omega), if_pos this]
  · rw [Nat.add_mul] at *
    split
    · omega
    · split
      · rfl
      · have : (q + 1) % 2 = 0 := even (by omega)
        rw [if_neg (by omega)]

theorem roundHalfEven_bounds (n d : Nat) :
    n / d ≤ roundHalfEven n d ∧ roundHalfEven n d ≤ n / d + 1 := by
  unfold roundHalfEven
  dsimp only
  repeat' split
  all_goals omega

theorem le_significand {n d : Nat} (spared : 0 < spareBits (n / d)) :
    2 ^ 52 ≤ roundHalfEven n (d * 2 ^ spareBits (n / d)) := by
  refine le_trans ?_ (roundHalfEven_bounds n (d * 2 ^ spareBits (n / d))).1
  rw [← Nat.div_div_eq_div_mul, Nat.le_div_iff_mul_le (Nat.two_pow_pos _), ← Nat.pow_add]
  exact (spareBits_bounds (n / d)).2 spared

theorem representable_roundUnits (n d : Nat) : Representable (roundUnits n d) := by
  unfold roundUnits Representable
  simp only [Nat.pow_eq]
  obtain ⟨high, _⟩ := spareBits_bounds (n / d)
  have least := @le_significand n d
  generalize spareBits (n / d) = s at *
  have gap := Nat.two_pow_pos s
  have below : n / (d * 2 ^ s) < 2 ^ 53 := by
    rw [← Nat.div_div_eq_div_mul, Nat.div_lt_iff_lt_mul gap, ← Nat.pow_add]
    exact high
  obtain ⟨_, most⟩ := roundHalfEven_bounds n (d * 2 ^ s)
  generalize roundHalfEven n (d * 2 ^ s) = m at *
  rcases Nat.lt_or_ge m (2 ^ 53) with less | carried
  · have upper : m * 2 ^ s < 2 ^ (53 + s) := by
      rw [Nat.pow_add]
      exact Nat.mul_lt_mul_of_pos_right less gap
    rcases Nat.eq_zero_or_pos s with rfl | some
    · rw [spareBits_small (by simpa using less)]
      exact Nat.one_dvd _
    · have lower : 2 ^ (52 + s) ≤ m * 2 ^ s := by
        rw [Nat.pow_add]
        exact Nat.mul_le_mul_right _ (least some)
      rw [spareBits_eq lower upper]
      exact Nat.dvd_mul_left _ _
  · obtain rfl : m = 2 ^ 53 := by omega
    have power : 2 ^ 53 * 2 ^ s = 2 ^ (52 + (s + 1)) := by
      rw [← Nat.pow_add]
      congr 1
      omega
    have upper : 2 ^ (52 + (s + 1)) < 2 ^ (53 + (s + 1)) := Nat.pow_lt_pow_right (by decide) (by omega)
    rw [power, spareBits_eq le_rfl upper]
    exact Nat.pow_dvd_pow 2 (by omega)

end VaultSchema.Binary64

namespace VaultSchema.Decimal

open Binary64

def Neighbourhood.Holds (hood : Neighbourhood) (n d : Nat) : Prop :=
  if hood.closed then hood.low * d ≤ 4 * n ∧ 4 * n ≤ hood.high * d
  else hood.low * d < 4 * n ∧ 4 * n < hood.high * d

theorem Neighbourhood.Holds.bounds {hood : Neighbourhood} {n d : Nat} (h : hood.Holds n d) :
    hood.low * d ≤ 4 * n ∧ 4 * n ≤ hood.high * d := by
  unfold Holds at h
  split at h
  · exact h
  · exact ⟨h.1.le, h.2.le⟩

theorem Neighbourhood.Holds.strict {hood : Neighbourhood} {n d : Nat} (h : hood.Holds n d)
    (ajar : hood.closed = false) : hood.low * d < 4 * n ∧ 4 * n < hood.high * d := by
  simpa [Holds, ajar] using h

/-- How far a neighbourhood reaches down, in quarters of a unit. -/
def lowGap (m s : Nat) : Nat := if m = 2 ^ 52 ∧ 0 < s then 2 ^ s else 2 * 2 ^ s

theorem neighbourhood_eq {units m s : Nat} (spare : spareBits units = s) (parts : units = m * 2 ^ s) :
    neighbourhood units =
      ⟨4 * (m * 2 ^ s) - lowGap m s, 4 * (m * 2 ^ s) + 2 * 2 ^ s, decide (m % 2 = 0)⟩ := by
  have significand : units / 2 ^ s = m := by
    rw [parts, Nat.mul_div_cancel _ (Nat.two_pow_pos s)]
  unfold neighbourhood
  simp only [Nat.pow_eq, spare, significand, Bool.and_eq_true, decide_eq_true_eq]
  rw [parts]
  rfl

/-- How far from a double of significand `m` its neighbourhood reaches. -/
theorem Neighbourhood.Holds.reach {units m s n d : Nat} (spare : spareBits units = s)
    (parts : units = m * 2 ^ s) (h : (neighbourhood units).Holds n d) :
    4 * (m * (d * 2 ^ s)) ≤ 4 * n + lowGap m s * d ∧ 4 * n ≤ 4 * (m * (d * 2 ^ s)) + 2 * (d * 2 ^ s) ∧
      (m % 2 = 1 → 4 * (m * (d * 2 ^ s)) < 4 * n + lowGap m s * d ∧
        4 * n < 4 * (m * (d * 2 ^ s)) + 2 * (d * 2 ^ s)) := by
  rw [neighbourhood_eq spare parts] at h
  have strict : m % 2 = 1 → _ := fun odd => h.strict (by simp [odd])
  obtain ⟨below, above⟩ := h.bounds
  have shuffle : m * 2 ^ s * d = m * (d * 2 ^ s) := by ring
  have turn : 2 * 2 ^ s * d = 2 * (d * 2 ^ s) := by ring
  dsimp only at below above strict
  rw [Nat.sub_mul, Nat.mul_assoc, shuffle] at below strict
  rw [Nat.add_mul, Nat.mul_assoc, shuffle, turn] at above strict
  refine ⟨by omega, above, fun odd => ?_⟩
  have := strict odd
  omega

theorem spareBits_div {n d s : Nat} (pos : 0 < d) (lower : 0 < s → 2 ^ 52 * (d * 2 ^ s) ≤ n)
    (upper : n < 2 ^ 53 * (d * 2 ^ s)) : spareBits (n / d) = s := by
  have less : n / d < 2 ^ (53 + s) := by
    rwa [Nat.div_lt_iff_lt_mul pos, Nat.pow_add, Nat.mul_assoc, Nat.mul_comm (2 ^ s)]
  rcases Nat.eq_zero_or_pos s with rfl | spared
  · exact spareBits_small less
  · refine spareBits_eq ?_ less
    rw [Nat.le_div_iff_mul_le pos, Nat.pow_add, Nat.mul_assoc, Nat.mul_comm (2 ^ s)]
    exact lower spared

/-- Just below a power of two, where doubles stand twice as close as above it. -/
theorem roundUnits_below {n d t : Nat} (pos : 0 < d) (less : n < 2 ^ 53 * (d * 2 ^ t))
    (near : 4 * (2 ^ 53 * (d * 2 ^ t)) ≤ 4 * n + 2 * (d * 2 ^ t)) : roundUnits n d = 2 ^ 53 * 2 ^ t := by
  have half : 0 < d * 2 ^ t := Nat.mul_pos pos (Nat.two_pow_pos t)
  have spare : spareBits (n / d) = t := spareBits_div pos (fun _ => by omega) less
  have rounded : roundHalfEven n (d * 2 ^ t) = 2 ^ 53 :=
    roundHalfEven_eq half (by omega) (by omega) fun _ => by decide
  unfold roundUnits
  simp only [Nat.pow_eq]
  rw [spare, rounded]

/-- Beside a double that is as close to the next lower one as to the next higher one. -/
theorem roundUnits_beside {n d m s : Nat} (pos : 0 < d) (most : m < 2 ^ 53)
    (least : 0 < s → 2 ^ 52 * (d * 2 ^ s) ≤ n)
    (below : 4 * (m * (d * 2 ^ s)) ≤ 4 * n + 2 * (d * 2 ^ s))
    (above : 4 * n ≤ 4 * (m * (d * 2 ^ s)) + 2 * (d * 2 ^ s))
    (strict : m % 2 = 1 → 4 * (m * (d * 2 ^ s)) < 4 * n + 2 * (d * 2 ^ s) ∧
      4 * n < 4 * (m * (d * 2 ^ s)) + 2 * (d * 2 ^ s)) : roundUnits n d = m * 2 ^ s := by
  have wide : 0 < d * 2 ^ s := Nat.mul_pos pos (Nat.two_pow_pos s)
  have spare : spareBits (n / d) = s := by
    refine spareBits_div pos least ?_
    have bound := Nat.mul_le_mul_right (d * 2 ^ s) (show m + 1 ≤ 2 ^ 53 from most)
    rw [Nat.add_mul] at bound
    omega
  have rounded : roundHalfEven n (d * 2 ^ s) = m := by
    refine roundHalfEven_eq wide (by omega) (by omega) fun tie => ?_
    by_contra odd
    have := strict (by omega)
    omega
  unfold roundUnits
  simp only [Nat.pow_eq]
  rw [spare, rounded]

/-- What lies in the neighbourhood of a double rounds to it. -/
theorem roundUnits_within {units n d : Nat} (pos : 0 < d) (double : Representable units)
    (within : (neighbourhood units).Holds n d) : roundUnits n d = units := by
  obtain ⟨high, low⟩ := spareBits_bounds units
  obtain ⟨m, parts⟩ := double
  generalize spare : spareBits units = s at *
  rw [Nat.mul_comm] at parts
  obtain ⟨below, above, strict⟩ := within.reach spare parts
  clear within spare
  have gap := Nat.two_pow_pos s
  have most : m < 2 ^ 53 := by
    rw [parts, Nat.pow_add] at high
    exact Nat.lt_of_mul_lt_mul_right high
  have least : 0 < s → 2 ^ 52 ≤ m := by
    intro spared
    have := low spared
    rw [parts, Nat.pow_add] at this
    exact Nat.le_of_mul_le_mul_right this gap
  -- Just below a power of two one binary digit more is kept than the double itself has.
  by_cases carried : m = 2 ^ 52 ∧ 0 < s ∧ n < units * d
  · obtain ⟨rfl, spared, less⟩ := carried
    obtain ⟨t, rfl⟩ : ∃ t, s = t + 1 := ⟨s - 1, by omega⟩
    have edge : lowGap (2 ^ 52) (t + 1) = 2 ^ (t + 1) := by simp [lowGap]
    have double : 2 ^ (t + 1) = 2 * 2 ^ t := by rw [Nat.pow_succ, Nat.mul_comm]
    have shuffle : d * (2 * 2 ^ t) = 2 * (d * 2 ^ t) := by ring
    have turn : 2 * 2 ^ t * d = 2 * (d * 2 ^ t) := by ring
    have whole : 2 ^ 52 * (2 * 2 ^ t) * d = 2 ^ 53 * (d * 2 ^ t) := by ring
    rw [edge, double, shuffle, turn] at below
    rw [parts, double, whole] at less
    rw [roundUnits_below pos less (by omega), parts, double]
    ring
  · have edge : lowGap m s * d ≤ 2 * (d * 2 ^ s) := by
      unfold lowGap
      split
      · rw [Nat.mul_comm]
        omega
      · exact le_of_eq (by ring)
    rw [parts]
    refine roundUnits_beside pos most (fun spared => ?_) (by omega) above fun odd => ?_
    · rcases Nat.lt_or_ge (2 ^ 52) m with more | same
      · have bound := Nat.mul_le_mul_right (d * 2 ^ s) (show 2 ^ 52 + 1 ≤ m from more)
        rw [Nat.add_mul] at bound
        omega
      · obtain rfl : m = 2 ^ 52 := Nat.le_antisymm same (least spared)
        have : units * d ≤ n := Nat.not_lt.1 fun less => carried ⟨rfl, spared, less⟩
        calc 2 ^ 52 * (d * 2 ^ s) = units * d := by rw [parts]; ring
          _ ≤ n := this
    · have := strict odd
      omega

end VaultSchema.Decimal
