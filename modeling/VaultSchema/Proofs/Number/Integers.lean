import VaultSchema.Proofs.Number.Order
import VaultSchema.Proofs.Calendar.Texts
import VaultSchema.Proofs.Json.RoundTrip

/-! Integers as doubles. The nearest doubles of two integers are never in the wrong order, but
beyond 53 binary digits two integers may have the same one. The decimal text of an integer is read
as its nearest double. -/

set_option autoImplicit false

namespace VaultSchema

namespace Binary64

def nearest (i : Int) : Binary64 := ofRatio (i < 0) i.natAbs 1

/-- Two integers with one nearest double. -/
def Conflated (a b : Int) : Prop := a ≠ b ∧ (nearest a).equal (nearest b) = true

instance (a b : Int) : Decidable (Conflated a b) := inferInstanceAs (Decidable (_ ∧ _))

theorem nearest_ne_nan (i : Int) : nearest i ≠ .nan := ofRatio_ne_nan _ _ _

theorem not_less_of_equal {x y : Binary64} (same : x.equal y = true) : x.less y = false := by
  obtain ⟨ranked, same⟩ := equal_iff.1 same
  obtain ⟨r, first⟩ := Option.isSome_iff_exists.1 ranked
  rw [less_of_ranks first (same ▸ first)]
  simp [rankLess]

theorem equal_nearest (a b : Int) : (nearest a).equal (nearest b) = decide (a = b ∨ Conflated a b) := by
  by_cases same : a = b
  · subst same
    simpa using equal_self (nearest_ne_nan a)
  · simp [Conflated, same]

theorem less_nearest (a b : Int) : (nearest a).less (nearest b) = decide (a < b ∧ ¬Conflated a b) := by
  rcases Int.lt_or_le a b with below | since
  · have notGreater : (nearest b).less (nearest a) = false := not_less_ofRatio below.le Nat.one_pos
    by_cases conflated : Conflated a b
    · rw [not_less_of_equal conflated.2]
      simp [conflated]
    · simp only [below, conflated, not_false_eq_true, and_self, decide_true]
      by_contra notLess
      rw [Bool.not_eq_true] at notLess
      exact conflated ⟨below.ne, equal_of_not_less (nearest_ne_nan a) (nearest_ne_nan b) notLess notGreater⟩
  · have notLess : (nearest a).less (nearest b) = false := not_less_ofRatio since Nat.one_pos
    simp [notLess, Int.not_lt.2 since]

theorem conflated_comm {a b : Int} : Conflated a b ↔ Conflated b a := by
  rw [Conflated, Conflated, equal_comm, ne_comm]

theorem representable_integer {n : Nat} (small : n ≤ 2 ^ 53) : Representable (n * unit) := by
  have unitPower : unit = 2 ^ unitBits := Decimal.unit_eq
  rcases Nat.lt_or_eq_of_le small with less | rfl
  · have spare : spareBits (n * unit) ≤ unitBits := by
      refine spareBits_le_of_lt ?_
      rw [Nat.pow_add, ← unitPower]
      exact Nat.mul_lt_mul_of_pos_right less Decimal.Scientific.unit_pos
    have divides := Nat.pow_dvd_pow 2 spare
    rw [← unitPower] at divides
    exact divides.mul_left n
  · have power : 2 ^ 53 * unit = 2 ^ (53 + unitBits) := by rw [unitPower, Nat.pow_add]
    rw [Representable, power]
    exact Nat.pow_dvd_pow 2 (by simp [spareBits, Nat.log2_two_pow])

theorem nearest_small {i : Int} (small : i.natAbs ≤ 2 ^ 53) : nearest i = .finite (i < 0) (i.natAbs * unit) := by
  have exactly : roundUnits (i.natAbs * unit) 1 = i.natAbs * unit := by
    simpa using roundUnits_multiple (representable_integer small) Nat.one_pos
  have few : i.natAbs * unit < overflowUnits := by
    have most : 2 ^ 53 * unit < overflowUnits := by decide +kernel
    exact (Nat.mul_le_mul_right unit small).trans_lt most
  rw [nearest, ofRatio, exactly, if_neg (Nat.not_le.2 few)]

theorem rank?_nearest_small {i : Int} (small : i.natAbs ≤ 2 ^ 53) : (nearest i).rank? = some (rankOfInt i) := by
  have size : signedUnits (i < 0) (i.natAbs * unit) = i * unit := by
    rcases Int.lt_or_le i 0 with below | since
    · rw [signedUnits, if_pos (by simpa using below), Nat.cast_mul, Int.ofNat_natAbs_of_nonpos below.le,
        Int.neg_mul, Int.neg_neg]
    · rw [signedUnits, if_neg (by simpa using since), Nat.cast_mul, Int.natAbs_of_nonneg since]
  rw [nearest_small small, rank?, size, rankOfInt]

theorem not_conflated_small {a b : Int} (first : a.natAbs ≤ 2 ^ 53) (second : b.natAbs ≤ 2 ^ 53) :
    ¬Conflated a b := by
  rintro ⟨differ, same⟩
  obtain ⟨-, ranks⟩ := equal_iff.1 same
  rw [rank?_nearest_small first, rank?_nearest_small second, Option.some.injEq, rankOfInt, rankOfInt,
    Prod.mk.injEq] at ranks
  exact differ (Int.eq_of_mul_eq_mul_right (Int.natCast_ne_zero.2 Decimal.Scientific.unit_pos.ne') ranks.2)

theorem ofInt?_nearest {i : Int} (small : i.natAbs < overflowInteger) : ofInt? i = some (nearest i) := by
  obtain ⟨units, -, rounded⟩ := exists_ofInt? small
  have same : nearest i = .finite (i < 0) units := by
    unfold ofInt? at rounded
    exact eq_of_finite? rounded
  rw [rounded, same]

theorem nearest_large {i : Int} (large : overflowInteger ≤ i.natAbs) : nearest i = .infinite (i < 0) := by
  -- The least of them lies in the middle between the largest double and an even number beyond it.
  have least : roundUnits (overflowInteger * unit) 1 = overflowUnits := by decide +kernel
  have more := roundUnits_mono (Nat.mul_le_mul_right unit large) Nat.one_pos
  rw [least] at more
  rw [nearest, ofRatio, if_pos more]

theorem ofInt?_eq_none_iff {i : Int} : ofInt? i = none ↔ overflowInteger ≤ i.natAbs := by
  constructor
  · intro none
    by_contra small
    rw [ofInt?_nearest (Nat.not_le.1 small)] at none
    cases none
  · intro large
    have rounded : ofRatio (i < 0) i.natAbs 1 = .infinite (i < 0) := nearest_large large
    rw [ofInt?, rounded]
    rfl

end Binary64

namespace Decimal

theorem nearest_integer (i : Int) : nearest (i < 0) ⟨i.natAbs, 0⟩ = Binary64.nearest i := by
  unfold nearest
  dsimp only
  split
  · next zero =>
    have none : i.natAbs ≤ 2 ^ 53 := by omega
    rw [Binary64.nearest_small none, show i.natAbs = 0 from zero, Nat.zero_mul]
  · split
    · next long =>
      -- More digits than the greatest double has: such an integer is infinite anyway.
      have digits : 310 < (toString i.natAbs).length := by simpa [greatestExponent] using long
      have large : 10 ^ 310 ≤ i.natAbs := by
        by_contra small
        rw [Nat.toString_eq_repr] at digits
        exact absurd ((Nat.length_repr_le_iff (by decide)).2 (Nat.not_le.1 small)) (Nat.not_le.2 digits)
      have bound : Binary64.overflowInteger ≤ 10 ^ 310 := by decide +kernel
      exact (Binary64.nearest_large (bound.trans large)).symm
    · split
      · next short => simp [leastExponent] at short; omega
      · simp [Binary64.nearest]

end Decimal

namespace Value

theorem asciiDigits?_digits {cs : List Char} (any : cs ≠ []) (digits : ∀ c ∈ cs, Decimal.isDigit c = true) :
    asciiDigits? cs = some cs := by
  have whole : (cs.mapM fun c => (Text.digitValue? c).map fun d => Char.ofNat (d + '0'.toNat)) = some cs :=
    Outcome.mapM_eq_some_self fun c mem => Decimal.of_isDigit
      (P := fun c => ((Text.digitValue? c).map fun d => Char.ofNat (d + '0'.toNat)) = some c)
      (by decide) (digits c mem)
  rw [asciiDigits?, if_neg (by simpa using any), whole]

/-- A value as a number, for any choice of doubles for integers. The actual choice would be computed wherever
the cases of a value are told apart. -/
def numberBy (nearest? : Int → Option Binary64) : Value → Except ValueFault (Option Binary64)
  | .scalar (.int i) =>
    match nearest? i with
    | some x => .ok (some x)
    | none => .error .numberTooLarge
  | .scalar (.float x) => .ok (some x)
  | .scalar (.text s) => .ok (numberOfText? s)
  | _ => .ok none

theorem number_eq (v : Value) : v.number = v.numberBy Binary64.ofInt? := by
  delta number numberBy
  generalize Binary64.ofInt? = nearest?
  rfl

theorem numberBy_int (nearest? : Int → Option Binary64) (i : Int) : (Value.int i).numberBy nearest? =
    match nearest? i with
    | some x => .ok (some x)
    | none => .error .numberTooLarge := rfl

theorem number_int {i : Int} (small : i.natAbs < Binary64.overflowInteger) :
    (Value.int i).number = .ok (some (.nearest i)) := by
  rw [number_eq, numberBy_int, Binary64.ofInt?_nearest small]

theorem number_int_large {i : Int} (large : Binary64.overflowInteger ≤ i.natAbs) :
    (Value.int i).number = .error .numberTooLarge := by
  rw [number_eq, numberBy_int, Binary64.ofInt?_eq_none_iff.2 large]

theorem number_text (s : String) : (Value.text s).number = .ok (numberOfText? s) := by
  rw [number_eq]
  rfl

theorem trim_integer (i : Int) : Text.trim (toString i) = toString i := by
  have plain : ∀ c ∈ (toString i).toList, Text.isBlank c = false := by
    intro c mem
    rw [Json.toList_integer] at mem
    rcases List.mem_append.1 mem with sign | digit
    · obtain rfl : c = '-' := by
        split at sign
        · exact List.mem_singleton.1 sign
        · cases sign
      decide
    · exact (Calendar.isDigit_apart (Decimal.isDigit_of_mem_toString digit)).1
  have trimmed : Text.Trimmed Text.isBlank (toString i).toList :=
    ⟨fun c mem => plain c (List.mem_of_mem_head? mem), fun c mem => plain c (List.mem_of_getLast? mem)⟩
  rw [← String.toList_inj, Text.toList_trim, Text.trimList_eq_self trimmed]

theorem numberOfText?_integer (i : Int) : numberOfText? (toString i) = some (.nearest i) := by
  have whole := Json.whole_toString i.natAbs
  have value := Decimal.ofDigits_toString i.natAbs
  have rounded := Decimal.nearest_integer i
  rw [numberOfText?, trim_integer, Json.toList_integer]
  generalize (toString i.natAbs).toList = ds at *
  have noPoint : ∀ c ∈ ds, (c != '.') = true := by
    intro c mem
    rw [bne_iff_ne]
    rintro rfl
    exact absurd (whole.digits '.' mem) (by decide)
  have front : ds.takeWhile (· != '.') = ds := List.takeWhile_eq_self_iff.2 noPoint
  have rest : ds.dropWhile (· != '.') = [] := List.dropWhile_eq_nil_iff.2 noPoint
  have unsigned : (ds.head? == some '-') = false := by
    rw [beq_eq_false_iff_ne]
    exact fun minus => absurd (whole.digits '-' (List.mem_of_mem_head? minus)) (by decide)
  have read := asciiDigits?_digits whole.some whole.digits
  by_cases negative : i < 0
  · simp only [negative, decide_true] at rounded
    simp [negative, front, rest, read, value, rounded]
  · simp only [negative, decide_false] at rounded
    simp [negative, front, rest, read, value, rounded, unsigned]

end Value
end VaultSchema
