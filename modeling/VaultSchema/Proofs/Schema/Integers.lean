import VaultSchema.Proofs.Schema.Comparison

/-! Integers compared by operators, as numbers or in their decimal texts. Each is taken as its
nearest double, so the verdict is the exact one, except on two integers with one nearest double and
on integers beyond the range of doubles. -/

set_option autoImplicit false

namespace VaultSchema

open Binary64 (nearest Conflated overflowInteger)

/-- The verdict on integers as they are. -/
def Operator.onIntegers? (o : Operator) (a b : Int) : Option Bool :=
  o.holds? (fun a b => decide (a = b)) (fun a b => decide (a < b)) a b

def Operator.isOrdering : Operator → Bool
  | .greaterThan | .lessThan | .greaterOrEqual | .lessOrEqual => true
  | _ => false

/-- An integer as a number or as its decimal text. -/
inductive Integral (i : Int) : Value → Prop
  | number : Integral i (.int i)
  | text : Integral i (.text (toString i))

/-- An integer beyond the range of doubles, as a number. -/
def Value.Unwieldy (v : Value) : Prop := ∃ i, v = .int i ∧ overflowInteger ≤ i.natAbs

/-- The verdict of nearest doubles is that of the integers, or of equal ones if these are conflated. -/
def Operator.Rounds (o : Operator) (a b : Int) (r : Bool) : Prop :=
  (¬Conflated a b → o.onIntegers? a b = some r) ∧ (Conflated a b → o.onIntegers? a a = some r)

section nearest

variable {a b i : Int} {v w : Value} {o : Operator}

theorem Operator.onNumbers?_nearest (o : Operator) (a b : Int) : o.onNumbers? (nearest a) (nearest b) =
    o.onIntegers? a (if Conflated a b then a else b) := by
  have less := Binary64.less_nearest a b
  have greater := Binary64.less_nearest b a
  have equal := Binary64.equal_nearest a b
  simp only [Binary64.conflated_comm (a := b)] at greater
  by_cases conflated : Conflated a b
  · simp only [conflated, not_true_eq_false, and_false, or_true, decide_false, decide_true] at less greater equal
    cases o <;> simp [onNumbers?, onIntegers?, holds?, less, greater, equal, conflated]
  · simp only [conflated, not_false_eq_true, and_true, or_false] at less greater equal
    cases o <;> simp [onNumbers?, onIntegers?, holds?, less, greater, equal, conflated]

theorem Operator.exists_rounds (comparison : o.isComparison = true) (a b : Int) :
    ∃ r, o.onNumbers? (nearest a) (nearest b) = some r ∧ o.Rounds a b r := by
  obtain ⟨r, verdict⟩ := Operator.exists_judge? comparison (.ofNumbers (nearest a) (nearest b))
  rw [← Operator.onNumbers?_eq] at verdict
  refine ⟨r, verdict, ?_⟩
  rw [Operator.onNumbers?_nearest] at verdict
  constructor
  · intro apart
    rwa [if_neg apart] at verdict
  · intro conflated
    rwa [if_pos conflated] at verdict

theorem Integral.number_eq (integral : Integral i v) (wieldy : ¬v.Unwieldy) : v.number = .ok (some (nearest i)) := by
  cases integral with
  | number => exact Value.number_int (Nat.not_le.1 fun large => wieldy ⟨i, rfl, large⟩)
  | text => rw [Value.number_text, Value.numberOfText?_integer]

theorem Value.Unwieldy.number_eq (unwieldy : v.Unwieldy) : v.number = .error .numberTooLarge := by
  obtain ⟨i, rfl, large⟩ := unwieldy
  exact Value.number_int_large large

theorem Integral.wieldy (integral : Integral i v) (small : i.natAbs ≤ 2 ^ 53) : ¬v.Unwieldy := by
  have few : 2 ^ 53 < overflowInteger := by decide +kernel
  rintro ⟨j, rfl, large⟩
  cases integral
  exact absurd (large.trans small) (Nat.not_le.2 few)

theorem Operator.evaluate_ordering (ordering : o.isOrdering = true) (v : Value) (s : String) :
    o.evaluate v s = o.evaluateOrdering v s := by
  cases o <;> first | rfl | cases ordering

/-- Integers are compared by their nearest doubles. The verdict is the exact one, unless two integers have the same
nearest double, which are taken for equal; integers that have none make a fault. Up to 53 binary digits every verdict
is exact. -/
theorem integers_compared (first : Integral a v) (second : Integral b w) :
    (¬v.Unwieldy → ¬w.Unwieldy → ∀ o : Operator, o.isComparison = true →
        ∃ r, o.compare v w = .ok r ∧ o.Rounds a b r) ∧
      (¬v.Unwieldy → ∀ o : Operator, o.isOrdering = true →
        ∃ r, o.evaluate v (toString b) = .ok r ∧ o.Rounds a b r) ∧
      (v.Unwieldy ∨ w.Unwieldy → ∀ o : Operator, o.compare v w = .error (.value .numberTooLarge)) ∧
      (v.Unwieldy → ∀ o : Operator, o.isOrdering = true → o.evaluate v (toString b) = .error .numberTooLarge) ∧
      (a.natAbs ≤ 2 ^ 53 → b.natAbs ≤ 2 ^ 53 → ¬Conflated a b ∧ ¬v.Unwieldy ∧ ¬w.Unwieldy) := by
  refine ⟨?_, ?_, ?_, ?_, ?_⟩
  · intro wieldy wieldy' o comparison
    obtain ⟨r, verdict, rounds⟩ := Operator.exists_rounds comparison a b
    rw [Operator.onNumbers?_eq] at verdict
    have weighed := Value.Weighed.numbers (first.number_eq wieldy) (second.number_eq wieldy')
    exact ⟨r, Value.compare_eq_ok_iff.2 ⟨_, weighed, verdict⟩, rounds⟩
  · intro wieldy o ordering
    have comparison : o.isComparison = true := by cases o <;> first | rfl | cases ordering
    obtain ⟨r, verdict, rounds⟩ := Operator.exists_rounds comparison a b
    refine ⟨r, ?_, rounds⟩
    rw [Operator.evaluate_ordering ordering, Operator.evaluateOrdering, first.number_eq wieldy,
      Value.numberOfText?_integer]
    simp only [bind, Except.bind, verdict, Option.getD_some]
    rfl
  · intro unwieldy o
    rw [Operator.compare_step]
    by_cases wieldy : v.Unwieldy
    · rw [wieldy.number_eq]
      rfl
    · rw [first.number_eq wieldy, (unwieldy.resolve_left wieldy).number_eq]
      rfl
  · intro unwieldy o ordering
    rw [Operator.evaluate_ordering ordering, Operator.evaluateOrdering, unwieldy.number_eq]
    rfl
  · exact fun small small' => ⟨Binary64.not_conflated_small small small', first.wieldy small, second.wieldy small'⟩

end nearest

theorem integers_compared_isbn :
    Operator.lessThan.compare (.int 9780441013593) (.text "9780441013594") = .ok true ∧
      Operator.equals.compare (.int 9780441013593) (.text "9780441013594") = .ok false ∧
      Operator.greaterOrEqual.evaluate (.int 9780441013593) "9780441013594" = .ok false := by
  have shown : toString (9780441013594 : Int) = "9780441013594" := by decide +kernel
  have printed : Integral 9780441013594 (.text "9780441013594") := shown ▸ .text
  obtain ⟨compares, evaluates, -, -, small⟩ := integers_compared (.number (i := 9780441013593)) printed
  obtain ⟨apart, wieldy, wieldy'⟩ := small (by decide) (by decide)
  obtain ⟨less, below, isLess, -⟩ := compares wieldy wieldy' .lessThan rfl
  obtain ⟨equal, same, isSame, -⟩ := compares wieldy wieldy' .equals rfl
  obtain ⟨weak, above, isAbove, -⟩ := evaluates wieldy .greaterOrEqual rfl
  obtain rfl := Option.some.inj ((isLess apart).symm.trans (by decide : _ = some true))
  obtain rfl := Option.some.inj ((isSame apart).symm.trans (by decide : _ = some false))
  obtain rfl := Option.some.inj ((isAbove apart).symm.trans (by decide : _ = some false))
  rw [shown] at above
  exact ⟨below, same, above⟩

/-- Beyond 53 binary digits two integers may be taken for equal, as numbers and as texts; and far beyond them they
are not compared at all. -/
theorem digits_lost :
    Operator.equals.compare (.int (2 ^ 53 + 1)) (.int (2 ^ 53)) = .ok true ∧
      Operator.greaterThan.compare (.text "9007199254740993") (.int (2 ^ 53)) = .ok false ∧
      Operator.greaterThan.evaluate (.int (2 ^ 53 + 1)) "9007199254740992" = .ok false ∧
      Operator.greaterThan.compare (.int (10 ^ 309)) (.int 1) = .error (.value .numberTooLarge) := by
  refine ⟨?_, ?_, ?_, ?_⟩
  all_goals decide +kernel

end VaultSchema
