import VaultSchema.Proofs.Number.Rounding

/-! The shortest decimal of a double reads back as it. Seventeen digits are enough: decimals of so
many digits stand closer to each other than the neighbourhood of a double is wide. -/

set_option autoImplicit false

namespace VaultSchema.Decimal

open Binary64

namespace Scientific

def numerator (s : Scientific) : Nat := s.mantissa * (unit * 10 ^ s.exponent.toNat)

def denominator (s : Scientific) : Nat := 10 ^ (-s.exponent).toNat

theorem unit_pos : 0 < unit := by decide +kernel

theorem denominator_pos (s : Scientific) : 0 < s.denominator := Nat.pow_pos (by decide)

theorem mantissa_lt (s : Scientific) : s.mantissa < 10 ^ (toString s.mantissa).length := by
  rw [Nat.toString_eq_repr]
  exact (Nat.length_repr_le_iff Nat.length_repr_pos).1 le_rfl

theorem le_mantissa {s : Scientific} (some : 0 < s.mantissa) :
    10 ^ ((toString s.mantissa).length - 1) ≤ s.mantissa := by
  rw [Nat.toString_eq_repr]
  by_contra less
  rcases Nat.eq_zero_or_pos (s.mantissa.repr.length - 1) with zero | more
  · rw [zero] at less
    omega
  · have := (Nat.length_repr_le_iff more).2 (Nat.not_le.1 less)
    have := Nat.length_repr_pos (n := s.mantissa)
    omega

theorem le_numerator {s : Scientific} {k : Nat} (some : 0 < s.mantissa)
    (high : (k : Int) < s.exponent + ((toString s.mantissa).length : Int)) :
    unit * 10 ^ k * s.denominator ≤ s.numerator := by
  have least := le_mantissa some
  unfold numerator denominator
  generalize (toString s.mantissa).length = len at *
  calc unit * 10 ^ k * 10 ^ (-s.exponent).toNat = unit * 10 ^ (k + (-s.exponent).toNat) := by
        rw [Nat.mul_assoc, ← Nat.pow_add]
    _ ≤ unit * 10 ^ (len - 1 + s.exponent.toNat) :=
        Nat.mul_le_mul_left _ (Nat.pow_le_pow_right (by decide) (by omega))
    _ = 10 ^ (len - 1) * (unit * 10 ^ s.exponent.toNat) := by rw [Nat.pow_add]; ring
    _ ≤ s.mantissa * (unit * 10 ^ s.exponent.toNat) := Nat.mul_le_mul_right _ least

theorem numerator_lt {s : Scientific} {k : Nat}
    (low : s.exponent + ((toString s.mantissa).length : Int) ≤ -k) :
    s.numerator * 10 ^ k < unit * s.denominator := by
  have most := s.mantissa_lt
  have one : 0 < unit * 10 ^ s.exponent.toNat * 10 ^ k := by
    exact Nat.mul_pos (Nat.mul_pos unit_pos (Nat.pow_pos (by decide))) (Nat.pow_pos (by decide))
  unfold numerator denominator
  generalize (toString s.mantissa).length = len at *
  calc s.mantissa * (unit * 10 ^ s.exponent.toNat) * 10 ^ k
      = s.mantissa * (unit * 10 ^ s.exponent.toNat * 10 ^ k) := Nat.mul_assoc _ _ _
    _ < 10 ^ len * (unit * 10 ^ s.exponent.toNat * 10 ^ k) := Nat.mul_lt_mul_of_pos_right most one
    _ = unit * 10 ^ (len + s.exponent.toNat + k) := by rw [Nat.pow_add, Nat.pow_add]; ring
    _ ≤ unit * 10 ^ (-s.exponent).toNat :=
        Nat.mul_le_mul_left _ (Nat.pow_le_pow_right (by decide) (by omega))

end Scientific

theorem Neighbourhood.Holds.congr {hood : Neighbourhood} {n d m c : Nat} (h : hood.Holds n d)
    (pos : 0 < d) (pos' : 0 < c) (same : m * d = n * c) : hood.Holds m c := by
  have turn : ∀ k, k * d * c = k * c * d := fun k => Nat.mul_right_comm k d c
  have whole : 4 * n * c = 4 * m * d := by rw [Nat.mul_assoc, Nat.mul_assoc, same]
  unfold Holds at *
  split
  · rename_i closed
    rw [if_pos closed] at h
    have low := Nat.mul_le_mul_right c h.1
    have high := Nat.mul_le_mul_right c h.2
    rw [turn, whole] at low
    rw [turn, whole] at high
    exact ⟨Nat.le_of_mul_le_mul_right low pos, Nat.le_of_mul_le_mul_right high pos⟩
  · rename_i ajar
    rw [if_neg ajar] at h
    have low := Nat.mul_lt_mul_of_pos_right h.1 pos'
    have high := Nat.mul_lt_mul_of_pos_right h.2 pos'
    rw [turn, whole] at low
    rw [turn, whole] at high
    exact ⟨Nat.lt_of_mul_lt_mul_right low, Nat.lt_of_mul_lt_mul_right high⟩

/-- A neighbourhood reaches from half a double to less than twice the double. -/
theorem neighbourhood_bounds {units : Nat} (some : 0 < units) (double : Representable units) :
    2 * units ≤ (neighbourhood units).low ∧ (neighbourhood units).high ≤ 6 * units := by
  obtain ⟨m, parts⟩ := double
  generalize spare : spareBits units = s at *
  rw [Nat.mul_comm] at parts
  have gap := Nat.two_pow_pos s
  have least : 2 ^ s ≤ m * 2 ^ s := by
    refine Nat.le_mul_of_pos_left _ (Nat.pos_of_ne_zero ?_)
    rintro rfl
    omega
  have edge : lowGap m s ≤ 2 * 2 ^ s := by
    unfold lowGap
    split <;> omega
  rw [neighbourhood_eq spare parts, parts]
  dsimp only
  omega

theorem unit_bounds : 6 * overflowUnits < 4 * (unit * 10 ^ 310) ∧ 4 * unit < 2 * 10 ^ 331 := by
  decide +kernel

theorem nearest_within {units : Nat} {s : Scientific} (negative : Bool) (some : 0 < units)
    (double : Representable units) (finite : units < overflowUnits)
    (within : (neighbourhood units).Holds s.numerator s.denominator) :
    nearest negative s = .finite negative units := by
  have rounded := roundUnits_within s.denominator_pos double within
  have pos := s.denominator_pos
  obtain ⟨large, small⟩ := unit_bounds
  obtain ⟨low, high⟩ := neighbourhood_bounds some double
  obtain ⟨below, above⟩ := within.bounds
  have least := (Nat.mul_le_mul_right s.denominator low).trans below
  have most := above.trans (Nat.mul_le_mul_right s.denominator high)
  have positive : 0 < s.mantissa := by
    rcases Nat.eq_zero_or_pos s.mantissa with zero | positive
    · have : 0 < 2 * units * s.denominator := Nat.mul_pos (by omega) pos
      simp [Scientific.numerator, zero] at least
      omega
    · exact positive
  -- Reading takes no short cut: the exponent is within what doubles reach.
  have notHigh : ¬ greatestExponent < s.exponent + ((toString s.mantissa).length : Int) := by
    intro beyond
    have far := Scientific.le_numerator (k := 310) positive beyond
    have : 6 * units * s.denominator < 4 * (unit * 10 ^ 310) * s.denominator :=
      Nat.mul_lt_mul_of_pos_right (by omega) pos
    rw [Nat.mul_assoc 4] at this
    omega
  have notLow : ¬ s.exponent + ((toString s.mantissa).length : Int) < leastExponent := by
    intro beyond
    have far := Scientific.numerator_lt (k := 331) (s := s) (by unfold leastExponent at beyond; omega)
    generalize 10 ^ 331 = tiny at far small
    have chain := calc 2 * tiny * s.denominator
        = 2 * 1 * s.denominator * tiny := by ring
      _ ≤ 2 * units * s.denominator * tiny :=
        Nat.mul_le_mul_right _ (Nat.mul_le_mul_right _ (Nat.mul_le_mul_left _ some))
      _ ≤ 4 * s.numerator * tiny := Nat.mul_le_mul_right _ least
      _ = 4 * (s.numerator * tiny) := Nat.mul_assoc _ _ _
    have : 4 * unit * s.denominator < 2 * tiny * s.denominator := Nat.mul_lt_mul_of_pos_right small pos
    rw [Nat.mul_assoc 4] at this
    omega
  have ofRatio_eq : ∀ n d, n * unit = s.numerator → d = s.denominator →
      ofRatio negative n d = .finite negative units := by
    intro n d up down
    unfold ofRatio
    rw [up, down, rounded]
    exact if_neg (by omega)
  unfold nearest
  rw [if_neg (by omega)]
  dsimp only
  rw [if_neg notHigh, if_neg notLow]
  split
  · rename_i whole
    refine ofRatio_eq _ _ ?_ ?_
    · rw [Scientific.numerator, Nat.pow_eq]
      ring
    · rw [Scientific.denominator, show (-s.exponent).toNat = 0 by omega]
      rfl
  · rename_i part
    refine ofRatio_eq _ _ ?_ ?_
    · rw [Scientific.numerator, show s.exponent.toNat = 0 by omega]
      ring
    · rw [Scientific.denominator, Nat.pow_eq]

def Reaches (units : Nat) (e : Int) : Prop := unit * 10 ^ e.toNat ≤ units * 10 ^ (-e).toNat

def guess (digits : Nat) : Int := ((digits : Int) - unitBits) * 30103 / 100000

def below (units : Nat) (e : Int) : Bool :=
  if 0 ≤ e then units < Nat.pow 10 e.toNat * unit else units * Nat.pow 10 (-e).toNat < unit

theorem magnitude_eq (units : Nat) :
    magnitude units =
      if below units (guess units.log2) then guess units.log2
      else if below units (guess units.log2 + 1) then guess units.log2 + 1
      else guess units.log2 + 2 := rfl

theorem reaches_of_not_below {units : Nat} {e : Int} (above : ¬ below units e = true) :
    Reaches units e := by
  unfold Reaches
  unfold below at above
  split at above
  · rw [decide_eq_true_eq, Nat.not_lt, Nat.pow_eq, Nat.mul_comm] at above
    rw [show (-e).toNat = 0 by omega, Nat.pow_zero, Nat.mul_one]
    exact above
  · rw [decide_eq_true_eq, Nat.not_lt, Nat.pow_eq] at above
    rw [show e.toNat = 0 by omega, Nat.pow_zero, Nat.mul_one]
    exact above

/-- Two has at least 0.30103 decimal digits, and hardly more. -/
theorem ten_pow_le : ∀ k < 1024, 10 ^ (30103 * k / 100000 - 1) ≤ 2 ^ k := by decide +kernel

theorem two_pow_le : ∀ k < 1075, 2 ^ k ≤ 10 ^ ((30103 * k + 99999) / 100000 + 1) := by decide +kernel

theorem unit_eq : unit = 2 ^ unitBits := by
  unfold unit
  generalize unitBits = k
  exact Nat.pow_eq

theorem guess_reaches {digits : Nat} (finite : digits < 1024 + unitBits) :
    Reaches (2 ^ digits) (guess digits - 1) := by
  unfold Reaches
  rw [unit_eq]
  rcases Nat.lt_or_ge digits unitBits with small | large
  · obtain ⟨k, whole⟩ : ∃ k, unitBits = digits + k := ⟨unitBits - digits, by omega⟩
    have bound := two_pow_le k (by unfold unitBits at *; omega)
    have down : (guess digits - 1).toNat = 0 := by
      unfold guess
      omega
    have up : (-(guess digits - 1)).toNat = (30103 * k + 99999) / 100000 + 1 := by
      unfold guess
      omega
    rw [down, up, whole, Nat.pow_add, Nat.pow_zero, Nat.mul_one]
    exact Nat.mul_le_mul_left _ bound
  · obtain ⟨k, rfl⟩ : ∃ k, digits = unitBits + k := ⟨digits - unitBits, by omega⟩
    have bound := ten_pow_le k (by omega)
    have up : (guess (unitBits + k) - 1).toNat = 30103 * k / 100000 - 1 := by
      unfold guess
      omega
    rw [up, Nat.pow_add, Nat.mul_assoc]
    refine Nat.mul_le_mul_left _ (bound.trans ?_)
    exact Nat.le_mul_of_pos_right _ (Nat.pow_pos (by decide))

theorem overflowUnits_eq : overflowUnits = 2 ^ (1024 + unitBits) := by
  unfold overflowUnits
  generalize 1024 + unitBits = k
  exact Nat.pow_eq

theorem magnitude_reaches {units : Nat} (some : 0 < units) (finite : units < overflowUnits) :
    Reaches units (magnitude units - 1) := by
  have short : units.log2 < 1024 + unitBits := by
    rw [overflowUnits_eq] at finite
    exact (Nat.log2_lt (Nat.ne_of_gt some)).2 finite
  have least := Nat.log2_self_le (Nat.ne_of_gt some)
  rw [magnitude_eq]
  split
  · exact (guess_reaches short).trans (Nat.mul_le_mul_right _ least)
  · rename_i above
    split
    · rw [Int.add_sub_cancel]
      exact reaches_of_not_below above
    · rename_i above
      rw [show guess units.log2 + 2 - 1 = guess units.log2 + 1 by omega]
      exact reaches_of_not_below above

/-- The whole number nearest to a quotient, a tie going to the even one, and the one on its other side. -/
def nearer (n d : Nat) : Nat :=
  if 2 * (n % d) < d || (2 * (n % d) = d && n / d % 2 = 0) then n / d else n / d + 1

def farther (n d : Nat) : Nat := if nearer n d = n / d then n / d + 1 else n / d

theorem nearer_bounds {n d : Nat} (pos : 0 < d) :
    2 * n ≤ 2 * (nearer n d * d) + d ∧ 2 * (nearer n d * d) ≤ 2 * n + d := by
  have parts := Nat.div_add_mod' n d
  have small := Nat.mod_lt n pos
  unfold nearer
  generalize n / d = q at *
  generalize n % d = r at *
  split
  · rename_i low
    simp only [Bool.or_eq_true, decide_eq_true_eq, Bool.and_eq_true] at low
    omega
  · rename_i high
    simp only [Bool.or_eq_true, decide_eq_true_eq, Bool.and_eq_true] at high
    rw [Nat.add_mul]
    omega

def scaled (units : Nat) (shift : Int) : Nat := units * 10 ^ shift.toNat

def step (shift : Int) : Nat := unit * 10 ^ (-shift).toNat

def placed (shift : Int) (c : Nat) : Scientific := ⟨c, -shift⟩

theorem placed_numerator (shift : Int) (c : Nat) : (placed shift c).numerator = c * step shift := rfl

theorem placed_denominator (shift : Int) (c : Nat) :
    (placed shift c).denominator = 10 ^ shift.toNat := by
  simp [placed, Scientific.denominator]

def fits (hood : Neighbourhood) (up d c : Nat) : Bool :=
  let at4 := 4 * c * d
  if hood.closed then hood.low * up ≤ at4 && at4 ≤ hood.high * up
  else hood.low * up < at4 && at4 < hood.high * up

theorem fits_iff {hood : Neighbourhood} {shift : Int} {c : Nat} :
    fits hood (10 ^ shift.toNat) (step shift) c = true ↔
      hood.Holds (placed shift c).numerator (placed shift c).denominator := by
  rw [placed_numerator, placed_denominator]
  unfold fits Neighbourhood.Holds
  simp only [Nat.mul_assoc]
  split <;> simp

theorem atPlaces?_eq (units : Nat) (shift top : Int) (places : Nat) (from_top : (places : Int) - top = shift) :
    atPlaces? units top places =
      let near := nearer (scaled units shift) (step shift)
      let far := farther (scaled units shift) (step shift)
      if fits (neighbourhood units) (10 ^ shift.toNat) (step shift) near then some (placed shift near)
      else if fits (neighbourhood units) (10 ^ shift.toNat) (step shift) far then some (placed shift far)
      else none := by
  subst from_top
  rfl

theorem atPlaces?_holds {units places : Nat} {top : Int} {s : Scientific}
    (found : atPlaces? units top places = some s) :
    (neighbourhood units).Holds s.numerator s.denominator := by
  rw [atPlaces?_eq units _ top places rfl] at found
  dsimp only at found
  split at found
  · rename_i near
    rw [← Option.some.inj found]
    exact fits_iff.1 near
  · split at found
    · rename_i far
      rw [← Option.some.inj found]
      exact fits_iff.1 far
    · cases found

theorem Reaches.step_le {units : Nat} {top : Int} (reaches : Reaches units (top - 1)) :
    step (17 - top) * 10 ^ 16 ≤ scaled units (17 - top) := by
  unfold Reaches at reaches
  unfold step scaled
  have shift : (top - 1).toNat + (17 - top).toNat =
      (-(17 - top)).toNat + 16 + (-(top - 1)).toNat := by omega
  generalize (top - 1).toNat = a at *
  generalize (-(top - 1)).toNat = b at *
  generalize (17 - top).toNat = up at *
  generalize (-(17 - top)).toNat = down at *
  refine Nat.le_of_mul_le_mul_right ?_ (show 0 < 10 ^ b from Nat.pow_pos (by decide))
  calc unit * 10 ^ down * 10 ^ 16 * 10 ^ b = unit * 10 ^ (down + 16 + b) := by
        rw [Nat.mul_assoc, Nat.mul_assoc, ← Nat.pow_add, ← Nat.pow_add]
        congr 2
        omega
    _ = unit * 10 ^ a * 10 ^ up := by rw [← shift, Nat.pow_add, Nat.mul_assoc]
    _ ≤ units * 10 ^ b * 10 ^ up := Nat.mul_le_mul_right _ reaches
    _ = units * 10 ^ up * 10 ^ b := Nat.mul_right_comm _ _ _

theorem Neighbourhood.Holds.of_strict {hood : Neighbourhood} {n d : Nat} (low : hood.low * d < 4 * n)
    (high : 4 * n < hood.high * d) : hood.Holds n d := by
  unfold Holds
  split
  · exact ⟨low.le, high.le⟩
  · exact ⟨low, high⟩

/-- At seventeen places the nearer decimal lies in the neighbourhood. -/
theorem nearer_holds {units : Nat} {top : Int} (some : 0 < units) (double : Representable units)
    (reaches : Reaches units (top - 1)) :
    (neighbourhood units).Holds
      (placed (17 - top) (nearer (scaled units (17 - top)) (step (17 - top)))).numerator
      (placed (17 - top) (nearer (scaled units (17 - top)) (step (17 - top)))).denominator := by
  have fine := reaches.step_le
  obtain ⟨high, _⟩ := spareBits_bounds units
  obtain ⟨m, parts⟩ := double
  generalize spare : spareBits units = s at *
  rw [Nat.mul_comm] at parts
  have least : 0 < m := by
    refine Nat.pos_of_ne_zero ?_
    rintro rfl
    omega
  have most : m < 2 ^ 53 := by
    rw [parts, Nat.pow_add] at high
    exact Nat.lt_of_mul_lt_mul_right high
  have pos : 0 < step (17 - top) := Nat.mul_pos Scientific.unit_pos (Nat.pow_pos (by decide))
  obtain ⟨above, below⟩ := nearer_bounds (n := scaled units (17 - top)) pos
  rw [neighbourhood_eq spare parts, placed_numerator, placed_denominator]
  unfold scaled at *
  generalize step (17 - top) = d at *
  generalize nearer (units * 10 ^ (17 - top).toNat) d * d = near at *
  have wide : 0 < 2 ^ s * 10 ^ (17 - top).toNat :=
    Nat.mul_pos (Nat.two_pow_pos s) (Nat.pow_pos (by decide))
  generalize 10 ^ (17 - top).toNat = up at *
  have whole : units * up = m * (2 ^ s * up) := by rw [parts, Nat.mul_assoc]
  have bound := Nat.mul_le_mul_right (2 ^ s * up) (show m ≤ 2 ^ 53 - 1 by omega)
  have enough := Nat.mul_le_mul_right (2 ^ s * up) (show 1 ≤ m from least)
  -- A step at this place is less than the gap below the double, which is no wider than the one above.
  have edge : 2 * d < lowGap m s * up ∧ lowGap m s * up ≤ 2 * (2 ^ s * up) := by
    unfold lowGap
    split
    · rename_i power
      rw [power.1] at whole
      omega
    · rw [Nat.mul_assoc]
      omega
  refine .of_strict ?_ ?_
  · dsimp only
    rw [Nat.sub_mul, Nat.mul_assoc, Nat.mul_assoc, ← whole]
    omega
  · dsimp only
    rw [Nat.add_mul, Nat.mul_assoc, Nat.mul_assoc, Nat.mul_assoc, ← whole]
    omega

theorem shortest_holds {units : Nat} (some : 0 < units) (double : Representable units)
    (finite : units < overflowUnits) :
    (neighbourhood units).Holds (shortest units).numerator (shortest units).denominator := by
  have last := fits_iff.2 (nearer_holds some double (magnitude_reaches some finite))
  unfold shortest
  dsimp only
  cases search : (List.range 17).findSome? fun k => atPlaces? units (magnitude units) (k + 1) with
  | some s =>
    obtain ⟨k, _, found⟩ := List.exists_of_findSome?_eq_some search
    exact atPlaces?_holds found
  | none =>
    have none := List.findSome?_eq_none_iff.1 search 16 (by decide)
    rw [atPlaces?_eq units _ _ _ rfl] at none
    simp [last] at none

theorem nearest_shortest {units : Nat} (negative : Bool) (some : 0 < units) (double : Representable units)
    (finite : units < overflowUnits) : nearest negative (shortest units) = .finite negative units :=
  nearest_within negative some double finite (shortest_holds some double finite)

end VaultSchema.Decimal
