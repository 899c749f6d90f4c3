import VaultSchema.Proofs.Calendar.Timestamps
import VaultSchema.Proofs.Number.Integers
import VaultSchema.Proofs.Schema.Agreement
import VaultSchema.Proofs.Schema.Suggestion
import VaultSchema.Proofs.Value.Tame

/-! Comparison of two values of any kinds. Whether they are compared as numbers, as instants or as
texts, the verdicts of all operators come from one weighing, and the weighing of the values turned
round is the same one turned round. -/

set_option autoImplicit false

namespace VaultSchema

/-- Whether the first of two things is less, equal or greater. -/
structure Weighing where
  less : Bool
  equal : Bool
  greater : Bool
  deriving DecidableEq, Repr

namespace Weighing

def swap (w : Weighing) : Weighing := ⟨w.greater, w.equal, w.less⟩

def ofOrdering (o : Ordering) : Weighing := ⟨o.isLT, o.isEq, o.isGT⟩

def ofNumbers (x y : Binary64) : Weighing := ⟨x.less y, x.equal y, y.less x⟩

def ofTexts (s t : String) : Weighing := ⟨decide (s < t), s == t, decide (t < s)⟩

theorem swap_ofNumbers (x y : Binary64) : (ofNumbers x y).swap = ofNumbers y x := by
  rw [ofNumbers, ofNumbers, swap, Binary64.equal_comm]

theorem swap_ofTexts (s t : String) : (ofTexts s t).swap = ofTexts t s := by
  rw [ofTexts, ofTexts, swap, Bool.beq_comm]

theorem exists_ofNumbers {x y : Binary64} (number : x ≠ .nan) (other : y ≠ .nan) :
    ∃ o, ofNumbers x y = ofOrdering o := by
  obtain ⟨⟨i, j⟩, first⟩ := Binary64.exists_rank? number
  obtain ⟨⟨k, l⟩, second⟩ := Binary64.exists_rank? other
  have equal : x.equal y = decide (i = k ∧ j = l) := by simp [Binary64.equal, first, second]
  rw [ofNumbers, Binary64.less_of_ranks first second, Binary64.less_of_ranks second first, equal]
  simp only [Binary64.rankLess]
  rcases lt_trichotomy i k with less | rfl | greater
  · exact ⟨.lt, by simp [ofOrdering, less, less.not_gt, less.ne, less.ne']⟩
  · rcases lt_trichotomy j l with less | rfl | greater
    · exact ⟨.lt, by simp [ofOrdering, less, less.not_gt, less.ne]⟩
    · exact ⟨.eq, by simp [ofOrdering]⟩
    · exact ⟨.gt, by simp [ofOrdering, greater, greater.not_gt, greater.ne']⟩
  · exact ⟨.gt, by simp [ofOrdering, greater, greater.not_gt, greater.ne']⟩

theorem exists_ofTexts (s t : String) : ∃ o, ofTexts s t = ofOrdering o := by
  rcases lt_trichotomy s t with less | rfl | greater
  · exact ⟨.lt, by simp [ofTexts, ofOrdering, less, less.not_gt, less.ne]⟩
  · exact ⟨.eq, by simp [ofTexts, ofOrdering]⟩
  · exact ⟨.gt, by simp [ofTexts, ofOrdering, greater, greater.not_gt, greater.ne']⟩

end Weighing

namespace Operator

def judge? (w : Weighing) : Operator → Option Bool
  | .equals => some w.equal
  | .notEquals => some !w.equal
  | .greaterThan => some w.greater
  | .lessThan => some w.less
  | .greaterOrEqual => some (w.greater || w.equal)
  | .lessOrEqual => some (w.less || w.equal)
  | .contains | .notContains => none

theorem onNumbers?_eq (o : Operator) (x y : Binary64) : o.onNumbers? x y = o.judge? (.ofNumbers x y) := by
  cases o <;> rfl

theorem onTexts?_eq (o : Operator) (s t : String) : o.onTexts? s t = o.judge? (.ofTexts s t) := by
  cases o <;> rfl

/-- The operator that says of the second what this one says of the first. -/
def mirror : Operator → Operator
  | .greaterThan => .lessThan
  | .lessThan => .greaterThan
  | .greaterOrEqual => .lessOrEqual
  | .lessOrEqual => .greaterOrEqual
  | o => o

theorem judge?_mirror (o : Operator) (w : Weighing) : o.mirror.judge? w.swap = o.judge? w := by
  cases o <;> rfl

theorem exists_judge? {o : Operator} (comparison : o.isComparison = true) (w : Weighing) :
    ∃ r, o.judge? w = some r := by
  cases o <;> first | exact ⟨_, rfl⟩ | cases comparison

/-- Values compared as what is shown of them. -/
def compareTexts (o : Operator) (a b : Value) : Except ComparisonFault Bool := do
  let s ← a.display.mapError .value
  let t ← b.display.mapError .value
  o.verdict (o.onTexts? s t)

/-- Values compared as instants if both are, as texts if not. -/
def compareInstants (o : Operator) (a b : Value) : Except ComparisonFault Bool :=
  match a.timestamp?, b.timestamp? with
  | some x, some y => o.verdict (o.onNumbers? x y)
  | _, _ => o.compareTexts a b

theorem compare_step (o : Operator) (a b : Value) :
    o.compare a b = (do
      let x ← a.number.mapError .value
      let y ← b.number.mapError .value
      match x, y with
      | some x, some y => o.verdict (o.onNumbers? x y)
      | _, _ => o.compareInstants a b) := rfl

theorem verdict_eq_ok {o : Operator} {v : Option Bool} {r : Bool} : o.verdict v = .ok r ↔ v = some r := by
  cases v <;> simp [verdict]

end Operator

namespace Value

def Unordered (a b : Value) : Prop :=
  ∃ x y, a.number = .ok (some x) ∧ b.number = .ok (some y) ∧ (x = .nan ∨ y = .nan)

/-- Two values are weighed as numbers, else as instants, else as what is shown of them. -/
inductive Weighed (a b : Value) : Weighing → Prop
  | numbers {x y : Binary64} (first : a.number = .ok (some x)) (second : b.number = .ok (some y)) :
    Weighed a b (.ofNumbers x y)
  | instants {x y : Option Binary64} {m n : Moment} (first : a.number = .ok x) (second : b.number = .ok y)
    (differ : x = none ∨ y = none) (date : a.moment? = some m) (other : b.moment? = some n) :
    Weighed a b (.ofNumbers m.timestamp n.timestamp)
  | texts {x y : Option Binary64} {s t : String} (first : a.number = .ok x) (second : b.number = .ok y)
    (differ : x = none ∨ y = none) (undated : a.moment? = none ∨ b.moment? = none)
    (shown : a.display = .ok s) (shows : b.display = .ok t) : Weighed a b (.ofTexts s t)

variable {a b : Value} {w : Weighing}

theorem Weighed.swap (h : Weighed a b w) : Weighed b a w.swap := by
  cases h with
  | numbers first second =>
    rw [Weighing.swap_ofNumbers]
    exact .numbers second first
  | instants first second differ date other =>
    rw [Weighing.swap_ofNumbers]
    exact .instants second first differ.symm other date
  | texts first second differ undated shown shows =>
    rw [Weighing.swap_ofTexts]
    exact .texts second first differ.symm undated.symm shows shown

theorem Weighed.ordered (h : Weighed a b w) (ordered : ¬Unordered a b) : ∃ o, w = .ofOrdering o := by
  cases h with
  | numbers first second =>
    refine Weighing.exists_ofNumbers ?_ ?_
    · exact fun nan => ordered ⟨_, _, first, second, .inl nan⟩
    · exact fun nan => ordered ⟨_, _, first, second, .inr nan⟩
  | instants => exact Weighing.exists_ofNumbers (Moment.timestamp_ne_nan _) (Moment.timestamp_ne_nan _)
  | texts => exact Weighing.exists_ofTexts _ _

theorem compareTexts_eq_ok {o : Operator} {r : Bool} : o.compareTexts a b = .ok r ↔
    ∃ s t, a.display = .ok s ∧ b.display = .ok t ∧ o.judge? (.ofTexts s t) = some r := by
  simp only [Operator.compareTexts, Outcome.bind_eq_ok, Outcome.mapError_eq_ok, Operator.verdict_eq_ok,
    Operator.onTexts?_eq, exists_and_left]

theorem compareInstants_eq_ok {o : Operator} {r : Bool} : o.compareInstants a b = .ok r ↔
    (∃ m n, a.moment? = some m ∧ b.moment? = some n ∧
        o.judge? (.ofNumbers m.timestamp n.timestamp) = some r) ∨
      (a.moment? = none ∨ b.moment? = none) ∧ o.compareTexts a b = .ok r := by
  unfold Operator.compareInstants timestamp?
  cases a.moment? with
  | none => simp
  | some m =>
    cases b.moment? with
    | none => simp
    | some n => simp [Operator.verdict_eq_ok, Operator.onNumbers?_eq]

theorem compare_eq_ok_iff {o : Operator} {r : Bool} :
    o.compare a b = .ok r ↔ ∃ w, Weighed a b w ∧ o.judge? w = some r := by
  rw [Operator.compare_step]
  simp only [Outcome.bind_eq_ok, Outcome.mapError_eq_ok]
  constructor
  · rintro ⟨x, first, y, second, compared⟩
    have undecided (differ : x = none ∨ y = none) (compared : o.compareInstants a b = .ok r) :
        ∃ w, Weighed a b w ∧ o.judge? w = some r := by
      rcases compareInstants_eq_ok.1 compared with ⟨m, n, date, other, judged⟩ | ⟨undated, compared⟩
      · exact ⟨_, .instants first second differ date other, judged⟩
      · obtain ⟨s, t, shown, shows, judged⟩ := compareTexts_eq_ok.1 compared
        exact ⟨_, .texts first second differ undated shown shows, judged⟩
    cases x with
    | none => exact undecided (.inl rfl) compared
    | some x =>
      cases y with
      | none => exact undecided (.inr rfl) compared
      | some y =>
        rw [Operator.verdict_eq_ok, Operator.onNumbers?_eq] at compared
        exact ⟨_, .numbers first second, compared⟩
  · have undecided : ∀ {x y : Option Binary64}, x = none ∨ y = none →
        (match x, y with
          | some x, some y => o.verdict (o.onNumbers? x y)
          | _, _ => o.compareInstants a b) = o.compareInstants a b := by
      rintro x y (rfl | rfl)
      · rfl
      · cases x <;> rfl
    rintro ⟨w, weighed, judged⟩
    cases weighed with
    | numbers first second =>
      refine ⟨_, first, _, second, ?_⟩
      rwa [Operator.verdict_eq_ok, Operator.onNumbers?_eq]
    | instants first second differ date other =>
      refine ⟨_, first, _, second, ?_⟩
      rw [undecided differ, compareInstants_eq_ok]
      exact .inl ⟨_, _, date, other, judged⟩
    | texts first second differ undated shown shows =>
      refine ⟨_, first, _, second, ?_⟩
      rw [undecided differ, compareInstants_eq_ok, compareTexts_eq_ok]
      exact .inr ⟨undated, _, _, shown, shows, judged⟩

theorem Weighed.exists_number (h : Weighed a b w) : ∃ x, a.number = .ok x := by
  cases h with
  | numbers first => exact ⟨_, first⟩
  | instants first => exact ⟨_, first⟩
  | texts first => exact ⟨_, first⟩

def Proper (v : Value) : Prop := ∀ x, v = .float x → x.Held

theorem Weighed.exists_display (h : Weighed a b w) (proper : a.Proper) :
    ∃ text, a.display = .ok text := by
  obtain ⟨n, number⟩ := h.exists_number
  have composed (noNumber : a.number = .ok none) (noMoment : a.moment? = none) : ∃ text, a.display = .ok text := by
    cases h with
    | numbers first => simp [noNumber] at first
    | instants _ _ _ date => simp [noMoment] at date
    | texts _ _ _ _ shown => exact ⟨_, shown⟩
  cases a with
  | sequence kind items => exact composed rfl rfl
  | mapping entries => exact composed rfl rfl
  | scalar s =>
    rw [display]
    cases s with
    | int i =>
      have small : i.natAbs < Binary64.overflowInteger := by
        by_contra large
        rw [number_int_large (Nat.not_lt.1 large)] at number
        cases number
      exact exists_displayScalar (s := .int i) small
    | float x => exact exists_displayScalar (s := .float x) (proper x rfl)
    | _ => exact ⟨_, rfl⟩

end Value

def CrossFieldConstraint.failed (c : CrossFieldConstraint) (path shown : String) : Finding :=
  ⟨path, .crossFieldViolation, s!"Cross-field constraint failed: {path} must be {c.operator.phrase} {c.field}",
    some s!"{c.operator.phrase} {c.field}", some shown⟩

namespace Registry

variable {a b : Value} {spec : FieldSpec} {c : CrossFieldConstraint} {top : FoldedKeys}

theorem crossFindings_null (declared : spec.crossField = some c) (other : top.value? c.field = some .null)
    (path : String) : crossFindings a spec path top = .ok [] := by
  rw [crossFindings, declared]
  simp only [CrossFieldConstraint.findings, other]

theorem crossFindings_compared (declared : spec.crossField = some c) (other : top.value? c.field = some b)
    (present : b ≠ .null) {r : Bool} (compared : c.operator.compare a b = .ok r) {shown : String}
    (display : a.display = .ok shown) (path : String) :
    crossFindings a spec path top = .ok (if r then [] else [c.failed path shown]) := by
  rw [crossFindings, declared]
  dsimp only
  unfold CrossFieldConstraint.findings
  split
  · next absent => simp [other] at absent
  · next null => exact (present (Option.some.inj (other.symm.trans null))).elim
  · next v _ found =>
    obtain rfl := Option.some.inj (other.symm.trans found)
    rw [compared, display]
    cases r <;> rfl

/-- Two fields demand the same of each other, each from its own side. -/
structure Opposed (p : Operator) (s t : FieldSpec) : Prop where
  comparison : p.isComparison = true
  first : s.crossField = some ⟨p, t.name⟩
  second : t.crossField = some ⟨p.mirror, s.name⟩

variable {p : Operator} {s t : FieldSpec} {w : Weighing}

/-- Opposed fields are both reported or both not, unless one of them is null. -/
theorem Opposed.agree (opposed : Opposed p s t) (weighed : Value.Weighed a b w) (first : top.value? s.name = some a)
    (second : top.value? t.name = some b) (here : a ≠ .null) (there : b ≠ .null) (proper : a.Proper)
    (proper' : b.Proper) :
    ∃ v shown shows, p.compare a b = .ok v ∧ a.display = .ok shown ∧ b.display = .ok shows ∧
      crossFindings a s s.name top =
        .ok (if v then [] else [CrossFieldConstraint.failed ⟨p, t.name⟩ s.name shown]) ∧
      crossFindings b t t.name top =
        .ok (if v then [] else [CrossFieldConstraint.failed ⟨p.mirror, s.name⟩ t.name shows]) := by
  obtain ⟨v, judged⟩ := Operator.exists_judge? opposed.comparison w
  obtain ⟨shown, display⟩ := weighed.exists_display proper
  obtain ⟨shows, displays⟩ := weighed.swap.exists_display proper'
  have compared : p.compare a b = .ok v := Value.compare_eq_ok_iff.2 ⟨w, weighed, judged⟩
  have mirrored : p.mirror.compare b a = .ok v :=
    Value.compare_eq_ok_iff.2 ⟨w.swap, weighed.swap, (p.judge?_mirror w).trans judged⟩
  refine ⟨v, shown, shows, compared, display, displays, ?_, ?_⟩
  · exact crossFindings_compared opposed.first second there compared display s.name
  · exact crossFindings_compared opposed.second first here mirrored displays t.name

end Registry

open Registry

/-- Two values that some operator compares are compared by all, and turned round by the mirrored ones with the same
verdict. Inequality denies equality. Unless the values are numbers of which one is none, exactly one of less, equal
and greater holds, and the weak orders are the unions. So two fields that demand mirrored comparisons of each other
are both reported or both not, unless one is null: then it is not asked for by the other. -/
theorem comparison_coherent {a b : Value} {o : Operator} {r : Bool} (compared : o.compare a b = .ok r) :
    (∀ p : Operator, p.isComparison = true → ∃ v, p.compare a b = .ok v ∧ p.mirror.compare b a = .ok v) ∧
      (∃ v, Operator.equals.compare a b = .ok v ∧ Operator.notEquals.compare a b = .ok !v) ∧
      (∃ l e g, Operator.lessThan.compare a b = .ok l ∧ Operator.equals.compare a b = .ok e ∧
        Operator.greaterThan.compare a b = .ok g ∧ Operator.lessOrEqual.compare a b = .ok (l || e) ∧
        Operator.greaterOrEqual.compare a b = .ok (g || e) ∧
        (¬a.Unordered b → ∃ order : Ordering, l = order.isLT ∧ e = order.isEq ∧ g = order.isGT)) ∧
      ∀ {p : Operator} {s t : FieldSpec} {top : FoldedKeys}, Opposed p s t → top.value? s.name = some a →
        top.value? t.name = some b →
          (a ≠ .null → b ≠ .null → a.Proper → b.Proper →
            ∃ v shown shows, p.compare a b = .ok v ∧ a.display = .ok shown ∧ b.display = .ok shows ∧
              crossFindings a s s.name top =
                .ok (if v then [] else [CrossFieldConstraint.failed ⟨p, t.name⟩ s.name shown]) ∧
              crossFindings b t t.name top =
                .ok (if v then [] else [CrossFieldConstraint.failed ⟨p.mirror, s.name⟩ t.name shows])) ∧
          (b = .null → crossFindings a s s.name top = .ok []) ∧
          (a = .null → crossFindings b t t.name top = .ok []) := by
  obtain ⟨w, weighed, -⟩ := Value.compare_eq_ok_iff.1 compared
  have judged {p : Operator} {v : Bool} (judgement : p.judge? w = some v) : p.compare a b = .ok v :=
    Value.compare_eq_ok_iff.2 ⟨w, weighed, judgement⟩
  refine ⟨fun p comparison => ?_, ⟨w.equal, judged rfl, judged rfl⟩, ?_, ?_⟩
  · obtain ⟨v, judgement⟩ := Operator.exists_judge? comparison w
    refine ⟨v, judged judgement, Value.compare_eq_ok_iff.2 ⟨w.swap, weighed.swap, ?_⟩⟩
    rw [Operator.judge?_mirror, judgement]
  · refine ⟨w.less, w.equal, w.greater, judged rfl, judged rfl, judged rfl, judged rfl, judged rfl, fun ordered => ?_⟩
    obtain ⟨order, rfl⟩ := weighed.ordered ordered
    exact ⟨order, rfl, rfl, rfl⟩
  · intro p s t top opposed first second
    refine ⟨opposed.agree weighed first second, ?_, ?_⟩
    · rintro rfl
      exact crossFindings_null opposed.first second s.name
    · rintro rfl
      exact crossFindings_null opposed.second first t.name

/-- A journey starts no later than it ends, and ends no earlier than it starts. -/
def departure (type : PrimitiveKind) : FieldSpec where
  name := "start"
  type := .primitive type
  crossField := some ⟨.lessOrEqual, "end"⟩

def arrival (type : PrimitiveKind) : FieldSpec where
  name := "end"
  type := .primitive type
  crossField := some ⟨.greaterOrEqual, "start"⟩

theorem opposed_journey (type type' : PrimitiveKind) : Opposed .lessOrEqual (departure type) (arrival type') :=
  ⟨rfl, rfl, rfl⟩

theorem comparison_coherent_journey :
    let a : Value := .text "2024-03-02"
    let b : Value := .moment ⟨⟨2024, 3, 2, rfl⟩, 1, 30, 0, 0, some 7200000000⟩
    let top : FoldedKeys := ⟨[("start", .text "Start", a), ("end", .text "end", b)]⟩
    Operator.lessOrEqual.compare a b = .ok false ∧ Operator.greaterOrEqual.compare b a = .ok false ∧
      Operator.greaterThan.compare a b = .ok true ∧
      (∃ shown, crossFindings a (departure .date) "start" top =
        .ok [CrossFieldConstraint.failed ⟨.lessOrEqual, "end"⟩ "start" shown]) ∧
      ∃ shown, crossFindings b (arrival .date) "end" top =
        .ok [CrossFieldConstraint.failed ⟨.greaterOrEqual, "start"⟩ "end" shown] := by
  intro a b top
  have compared : Operator.lessOrEqual.compare a b = .ok false := by decide +kernel
  obtain ⟨mirrors, -, ⟨l, e, g, -, -, greater, weak, -, ordered⟩, fields⟩ := comparison_coherent compared
  obtain ⟨v, first, second⟩ := mirrors .lessOrEqual rfl
  obtain rfl := Except.ok.inj (compared.symm.trans first)
  have noNumber : a.number = .ok none := by decide +kernel
  obtain ⟨order, rfl, rfl, rfl⟩ := ordered fun ⟨x, y, number, _⟩ => by cases noNumber.symm.trans number
  have above : order = .gt := by
    have notBelow := Except.ok.inj (compared.symm.trans weak)
    cases order with
    | gt => rfl
    | lt => cases notBelow
    | eq => cases notBelow
  subst above
  have starts : top.value? "start" = some a := rfl
  have ends : top.value? "end" = some b := rfl
  obtain ⟨both, -, -⟩ := fields (opposed_journey .date .date) starts ends
  obtain ⟨v, shown, shows, again, -, -, here, there⟩ :=
    both (by simp [a]) (by simp [b]) (by simp [a, Value.Proper]) (by simp [b, Value.Proper])
  obtain rfl := Except.ok.inj (compared.symm.trans again)
  exact ⟨compared, second, greater, ⟨shown, here⟩, shows, there⟩

/-- A journey without an end starts after it, as texts go, but only the end is told. -/
theorem null_unanswered :
    Operator.lessOrEqual.compare (.text "June") .null = .ok false ∧
      Opposed .lessOrEqual (departure .string) (arrival .null) ∧
      ({} : Registry).validate "a.md" (some [(.text "start", .text "June"), (.text "end", .null)])
          { id := "journeys", query := "*", fields := [departure .string, arrival .null] } false =
        .ok [(CrossFieldConstraint.failed ⟨.greaterOrEqual, "start"⟩ "end" "").stamp "a.md" "journeys"] := by
  refine ⟨by decide +kernel, opposed_journey _ _, ?_⟩
  let entries : List (String × Value) := [("start", .text "June"), ("end", .null)]
  have free : (entries.map fun e => Text.lower e.1).Nodup := by decide +kernel
  have folded := FoldedKeys.ofEntries_ofTexts entries
  have first := FoldedKeys.value?_ofTexts free (List.mem_cons_self (a := ("start", Value.text "June")))
  have second := FoldedKeys.value?_ofTexts free (List.mem_cons_of_mem _ (List.mem_singleton_self ("end", Value.null)))
  generalize FoldedKeys.mk (entries.map fun e => (Text.lower e.1, .text e.1, e.2)) = top at folded first second
  have starts : ({} : Registry).groupFindings top ⟨"start", [departure .string]⟩ = .ok [] := by
    refine (groupFindings_single (departure .string) rfl first).trans ?_
    rw [valueFindings_flat {} top rfl rfl rfl (by decide)]
    have skipped : crossFindings (.text "June") (departure .string) "start" top = .ok [] :=
      crossFindings_null (c := ⟨.lessOrEqual, "end"⟩) rfl second "start"
    exact Outcome.bind_eq_ok.2 ⟨[], rfl, Outcome.bind_eq_ok.2 ⟨[], skipped, rfl⟩⟩
  have ends : ({} : Registry).groupFindings top ⟨"end", [arrival .null]⟩ =
      .ok [CrossFieldConstraint.failed ⟨.greaterOrEqual, "start"⟩ "end" ""] := by
    refine (groupFindings_single (arrival .null) rfl second).trans ?_
    rw [valueFindings_flat {} top rfl rfl rfl (by decide)]
    have compared : Operator.greaterOrEqual.compare .null (.text "June") = .ok false := by decide +kernel
    have told : crossFindings .null (arrival .null) "end" top =
        .ok [CrossFieldConstraint.failed ⟨.greaterOrEqual, "start"⟩ "end" ""] :=
      crossFindings_compared (c := ⟨.greaterOrEqual, "start"⟩) rfl first nofun compared rfl "end"
    exact Outcome.bind_eq_ok.2 ⟨[], rfl, Outcome.bind_eq_ok.2 ⟨_, told, rfl⟩⟩
  have groups : Schema.groups { id := "journeys", query := "*", fields := [departure .string, arrival .null] } =
      [⟨"start", [departure .string]⟩, ⟨"end", [arrival .null]⟩] := by decide
  have each := Outcome.mapM_eq_ok_iff.2 (.cons starts (.cons ends .nil))
  rw [← groups] at each
  have read := congrArg Check.ofValue folded
  unfold validate findings
  exact Outcome.bind_eq_ok.2 ⟨_, Outcome.bind_eq_ok.2 ⟨top, read, Outcome.bind_eq_ok.2 ⟨_, each, rfl⟩⟩, rfl⟩

end VaultSchema
