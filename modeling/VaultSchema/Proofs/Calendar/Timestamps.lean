import VaultSchema.Proofs.Calendar.Instants
import VaultSchema.Proofs.Number.Order

/-! Instants in order of their seconds. Seconds are doubles, so of two instants the later one never
has fewer seconds, but far from 1970 it may have as many. Instants of whole seconds, and all up to
the year 2242, come back from their seconds, and those are told apart. -/

set_option autoImplicit false

namespace VaultSchema

namespace Moment

open Binary64

/-- Instants that come back from their seconds: those less than 2 ^ 33 seconds away from the start of 1970, and
those of whole seconds. -/
def Sharp (m : Moment) : Prop :=
  m.toMicros.natAbs < 2 ^ 33 * microsPerSecond ∨
    microsPerSecond ∣ m.toMicros.natAbs ∧ m.toMicros.natAbs < 2 ^ 53 * microsPerSecond

instance (m : Moment) : Decidable m.Sharp := inferInstanceAs (Decidable (_ ∨ _))

theorem sharp_startOf (d : Date) : (startOf d).Sharp := by
  have bounds := d.toDays_bounds
  have micros : (startOf d).toMicros = d.toDays * 86400 * microsPerSecond := by
    simp [toMicros, startOf, microsPerDay, microsPerSecond, mul_assoc]
  right
  rw [micros, Int.natAbs_mul]
  refine ⟨Nat.dvd_mul_left _ _, ?_⟩
  simp only [microsPerSecond, Int.natAbs_natCast]
  omega

theorem seconds_near {n : Nat}
    (sharp : n < 2 ^ 33 * microsPerSecond ∨ microsPerSecond ∣ n ∧ n < 2 ^ 53 * microsPerSecond) :
    2 * (n * unit) < 2 * (roundUnits (n * unit) microsPerSecond * microsPerSecond) + unit ∧
      2 * (roundUnits (n * unit) microsPerSecond * microsPerSecond) < 2 * (n * unit) + unit := by
  have pos : 0 < microsPerSecond := by decide
  rcases sharp with small | ⟨⟨k, rfl⟩, small⟩
  · -- Doubles of so many seconds lie less than a microsecond apart.
    obtain ⟨below, above⟩ := roundUnits_near (n * unit) pos
    have spared : spareBits (n * unit / microsPerSecond) ≤ 1054 := by
      refine spareBits_le_of_lt ((Nat.div_lt_iff_lt_mul pos).2 ?_)
      have size : 2 ^ 33 * microsPerSecond * unit = 2 ^ (53 + 1054) * microsPerSecond := by decide +kernel
      rw [← size]
      exact Nat.mul_lt_mul_of_pos_right small Decimal.Scientific.unit_pos
    have gap := Nat.mul_le_mul_right microsPerSecond (Nat.pow_le_pow_right (show 0 < 2 by decide) spared)
    have narrow : 2 ^ 1054 * microsPerSecond < unit := by decide +kernel
    rw [Nat.add_mul, Nat.mul_assoc] at below
    omega
  · -- Whole seconds are doubles themselves.
    have double : Representable (k * unit) := by
      have spared : spareBits (k * unit) ≤ unitBits := by
        refine spareBits_le_of_lt ?_
        rw [Nat.mul_comm] at small
        rw [Nat.pow_add, ← Decimal.unit_eq]
        exact Nat.mul_lt_mul_of_pos_right (Nat.lt_of_mul_lt_mul_right small) Decimal.Scientific.unit_pos
      have divides := Nat.pow_dvd_pow 2 spared
      rw [← Decimal.unit_eq] at divides
      exact divides.trans (Nat.dvd_mul_left _ _)
    have whole : microsPerSecond * k * unit = k * unit * microsPerSecond := by ring
    have some := Decimal.Scientific.unit_pos
    rw [whole, roundUnits_multiple double pos]
    omega

/-- A sharp instant comes back from its seconds. -/
theorem roundToParts?_timestamp {m : Moment} (sharp : m.Sharp) :
    m.timestamp.roundToParts? microsPerSecond = some m.toMicros := by
  obtain ⟨below, above⟩ := seconds_near sharp
  have finite : roundUnits (m.toMicros.natAbs * unit) microsPerSecond < overflowUnits := by
    have few : m.toMicros.natAbs + 1 ≤ 2 ^ 53 * microsPerSecond := by
      rcases sharp with few | ⟨-, few⟩
      · simp only [microsPerSecond] at few ⊢
        omega
      · exact few
    have room : 2 ^ 53 * unit ≤ overflowUnits := by decide +kernel
    have most := Nat.mul_le_mul_right unit few
    have turn : 2 ^ 53 * microsPerSecond * unit = 2 ^ 53 * unit * microsPerSecond := by ring
    rw [Nat.add_mul, turn] at most
    refine lt_of_lt_of_le (Nat.lt_of_mul_lt_mul_right (a := microsPerSecond) ?_) room
    omega
  have back : roundHalfEven (roundUnits (m.toMicros.natAbs * unit) microsPerSecond * microsPerSecond) unit =
      m.toMicros.natAbs :=
    roundHalfEven_eq Decimal.Scientific.unit_pos (by omega) (by omega) (by omega)
  unfold timestamp secondsOfMicros ofRatio
  rw [if_neg (Nat.not_le.2 finite), roundToParts?, back]
  rcases Int.lt_or_le m.toMicros 0 with before | since
  · simp only [before, decide_true, signedUnits, if_true]
    exact congrArg some (by omega)
  · simp only [Int.not_lt.2 since, decide_false, signedUnits, Bool.false_eq_true, if_false]
    exact congrArg some (by omega)

theorem timestamp_ne_nan (m : Moment) : m.timestamp ≠ .nan := by
  unfold timestamp secondsOfMicros
  exact ofRatio_ne_nan _ _ _

theorem not_less_timestamp {a b : Moment} (le : a.toMicros ≤ b.toMicros) : b.timestamp.less a.timestamp = false := by
  unfold timestamp secondsOfMicros
  exact not_less_ofRatio le (by decide)

theorem less_timestamp {a b : Moment} (sharp : a.Sharp) (other : b.Sharp) (less : a.toMicros < b.toMicros) :
    a.timestamp.less b.timestamp = true := by
  by_contra order
  rw [Bool.not_eq_true] at order
  have := roundToParts?_mono (roundToParts?_timestamp sharp) (roundToParts?_timestamp other) order
  omega

end Moment
end VaultSchema
