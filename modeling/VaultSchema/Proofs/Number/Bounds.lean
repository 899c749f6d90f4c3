import VaultSchema.Proofs.Number.Digits
import VaultSchema.Value.Conversion

/-! Bounds that rounding and writing keep to. What lies below the middle between a double and the
next one is not rounded beyond it, so integers up to the largest double have a nearest one; and no
double is so large that it could not be written out as an integer. -/

set_option autoImplicit false

namespace VaultSchema

namespace Binary64

theorem roundHalfEven_le {n d m : Nat} (below : 2 * n < (2 * m + 1) * d) : roundHalfEven n d ≤ m := by
  have pos : 0 < d := Nat.pos_of_ne_zero fun zero => by simp [zero] at below
  have parts := Nat.div_add_mod n d
  have small : n / d ≤ m := by
    by_contra more
    have := Nat.mul_le_mul_left d (show m + 1 ≤ n / d by omega)
    have expand : (2 * m + 1) * d = 2 * (d * m) + d := by ring
    rw [Nat.mul_add] at this
    omega
  rcases Nat.lt_or_eq_of_le small with less | same
  · exact (roundHalfEven_bounds n d).2.trans less
  · have near : 2 * (n % d) < d := by
      have expand : (2 * m + 1) * d = 2 * (d * m) + d := by ring
      rw [same] at parts
      omega
    simp [roundHalfEven, near, same]

theorem spareBits_le {n d m : Nat} (double : Representable m) (below : n < (m + 2 ^ spareBits m) * d) :
    spareBits (n / d) ≤ spareBits m := by
  have pos : 0 < d := Nat.pos_of_ne_zero fun zero => by simp [zero] at below
  obtain ⟨k, parts⟩ := double
  obtain ⟨high, _⟩ := spareBits_bounds m
  obtain ⟨_, low⟩ := spareBits_bounds (n / d)
  generalize spareBits m = S at *
  generalize spareBits (n / d) = s at *
  by_contra more
  have front : 2 ^ (52 + s) * d ≤ n := (Nat.le_div_iff_mul_le pos).1 (low (by omega))
  have few : k + 1 ≤ 2 ^ 53 := by
    have : 2 ^ S * k < 2 ^ S * 2 ^ 53 := by rwa [← parts, ← Nat.pow_add, Nat.add_comm S]
    exact Nat.lt_of_mul_lt_mul_left this
  have next : m + 2 ^ S ≤ 2 ^ (53 + S) := by
    calc m + 2 ^ S = (k + 1) * 2 ^ S := by rw [parts]; ring
      _ ≤ 2 ^ 53 * 2 ^ S := Nat.mul_le_mul_right _ few
      _ = 2 ^ (53 + S) := (Nat.pow_add ..).symm
  have up : 2 ^ (53 + S) ≤ 2 ^ (52 + s) := Nat.pow_le_pow_right (by decide) (by omega)
  have past := Nat.mul_le_mul_right d (next.trans up)
  omega

/-- Below the middle between a double and the next one nothing is rounded up. -/
theorem roundUnits_le {n d m : Nat} (double : Representable m) (below : 2 * n < (2 * m + 2 ^ spareBits m) * d) :
    roundUnits n d ≤ m := by
  have pos : 0 < d := Nat.pos_of_ne_zero fun zero => by simp [zero] at below
  have within := spareBits_le double (n := n) (d := d) <| by
    have gap : 0 < 2 ^ spareBits m * d := Nat.mul_pos (Nat.two_pow_pos _) pos
    rw [Nat.add_mul] at below ⊢
    rw [Nat.mul_assoc] at below
    omega
  obtain ⟨k, parts⟩ := double
  obtain ⟨_, large⟩ := spareBits_bounds m
  obtain ⟨quotient, _⟩ := spareBits_bounds (n / d)
  unfold roundUnits
  dsimp only
  rw [Nat.pow_eq]
  generalize spareBits m = S at *
  generalize spareBits (n / d) = s at *
  obtain ⟨t, rfl⟩ := Nat.exists_eq_add_of_le within
  have whole : m = 2 ^ t * k * 2 ^ s := by rw [parts, Nat.pow_add]; ring
  have near : 2 * n < (2 * (2 ^ t * k) + 1) * (d * 2 ^ s) := by
    have expand : (2 * (2 ^ t * k) + 1) * (d * 2 ^ s) = 2 * (m * d) + 2 ^ s * d := by rw [whole]; ring
    rw [expand]
    rcases Nat.eq_zero_or_pos t with rfl | some
    · rw [Nat.add_mul, Nat.mul_assoc] at below
      simpa using below
    · have up : 2 ^ (53 + s) ≤ 2 ^ (52 + (s + t)) := Nat.pow_le_pow_right (by decide) (by omega)
      have less : n < m * d := (Nat.div_lt_iff_lt_mul pos).1 (quotient.trans_le (up.trans (large (by omega))))
      omega
  calc roundHalfEven n (d * 2 ^ s) * 2 ^ s ≤ 2 ^ t * k * 2 ^ s := Nat.mul_le_mul_right _ (roundHalfEven_le near)
    _ = m := whole.symm

/-- The least magnitude of integers whose nearest double would be an infinity. -/
def overflowInteger : Nat := 2 ^ 1024 - 2 ^ 970

def largestUnits : Nat := (2 ^ 53 - 1) * 2 ^ 2045

theorem spareBits_largestUnits : spareBits largestUnits = 2045 := by
  refine spareBits_eq ?_ ?_ <;> decide +kernel

theorem exists_ofInt? {i : Int} (small : i.natAbs < overflowInteger) :
    ∃ units, units ≤ largestUnits ∧ ofInt? i = some (.finite (i < 0) units) := by
  have double : Representable largestUnits := by
    rw [Representable, spareBits_largestUnits]
    exact Nat.dvd_mul_left _ _
  have rounded : roundUnits (i.natAbs * unit) 1 ≤ largestUnits := by
    refine roundUnits_le double ?_
    have middle : 2 * (overflowInteger * unit) = (2 * largestUnits + 2 ^ 2045) * 1 := by decide +kernel
    rw [spareBits_largestUnits, ← middle]
    have := Nat.mul_lt_mul_of_pos_right small Decimal.Scientific.unit_pos
    omega
  have finite : largestUnits < overflowUnits := by decide +kernel
  refine ⟨_, rounded, ?_⟩
  rw [ofInt?, ofRatio, if_neg (by omega)]
  rfl

theorem natAbs_of_toInt? {negative : Bool} {units : Nat} (small : units < overflowUnits) {i : Int}
    (whole : (finite negative units).toInt? = some i) : i.natAbs < 2 ^ 1024 := by
  have size : overflowUnits = 2 ^ 1024 * unit := by decide +kernel
  have less : units / unit < 2 ^ 1024 := (Nat.div_lt_iff_lt_mul Decimal.Scientific.unit_pos).2 (size ▸ small)
  obtain ⟨_, same⟩ := Option.ite_none_right_eq_some.1 whole
  have magnitude (k : Nat) : (signedUnits negative k).natAbs = k := by cases negative <;> simp [signedUnits]
  rwa [← Option.some.inj same, magnitude]

end Binary64

def Short (i : Int) : Prop := (toString i.natAbs).length ≤ greatestDigitCount

instance (i : Int) : Decidable (Short i) := inferInstanceAs (Decidable (_ ≤ _))

theorem integerText_ok {i : Int} (short : Short i) : integerText i = .ok (toString i) := if_neg (Nat.not_lt.2 short)

theorem short_iff {i : Int} : Short i ↔ i.natAbs < 10 ^ greatestDigitCount := by
  rw [Short, Nat.toString_eq_repr]
  exact Nat.length_repr_le_iff (by decide)

theorem short_power {n : Nat} (few : n < greatestDigitCount) : Short (10 ^ n) := by
  have power : Int.natAbs (10 ^ n) = 10 ^ n := Int.natAbs_pow 10 n
  rw [short_iff, power, Nat.pow_lt_pow_iff_right (by decide)]
  exact few

theorem overflow_written : 2 ^ 1024 < 10 ^ greatestDigitCount := by
  calc 2 ^ 1024 < 10 ^ 309 := by decide +kernel
    _ ≤ 10 ^ greatestDigitCount := Nat.pow_le_pow_right (by decide) (by decide)

theorem Value.displayFloat_ok {x : Binary64} (held : x.Held) : ∃ s, Value.displayFloat x = .ok s := by
  unfold Value.displayFloat
  cases held with
  | nan => exact ⟨_, rfl⟩
  | infinite negative => exact ⟨_, rfl⟩
  | @finite negative units double small =>
    cases whole : (Binary64.finite negative units).toInt? with
    | none => exact ⟨_, rfl⟩
    | some i => exact ⟨_, integerText_ok (short_iff.2 ((Binary64.natAbs_of_toInt? small whole).trans overflow_written))⟩

end VaultSchema
