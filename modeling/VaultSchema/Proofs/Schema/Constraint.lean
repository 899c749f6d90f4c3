import VaultSchema.Schema.Constraint
import VaultSchema.Proofs.Outcome

set_option autoImplicit false

namespace VaultSchema

/-- The pattern occurs in the text, if it can be read, and the length lies between the bounds. -/
structure StringConstraints.Met (c : StringConstraints) (text : String) : Prop where
  pattern : ∀ p, c.pattern = some p → p ≠ "" → ∀ node, Pattern.read p = .ok node →
    node.occursIn text = true
  minLength : ∀ n, c.minLength = some n → n ≤ text.length
  maxLength : ∀ n, c.maxLength = some n → text.length ≤ n

structure NumberConstraints.Met (c : NumberConstraints) (number : Scalar) : Prop where
  min : ∀ b, c.min = some b → scalarBelow number (.float b) = false
  max : ∀ b, c.max = some b → scalarBelow (.float b) number = false

/-- The instant that the value denotes is neither before nor after a bound that denotes one. -/
structure DateConstraints.Met (c : DateConstraints) (value : Value) : Prop where
  min : ∀ t b, value.timestamp? = some t → boundInstant? c.min = some b → t.less b.2 = false
  max : ∀ t b, value.timestamp? = some t → boundInstant? c.max = some b → b.2.less t = false

/-- The number of items lies between the bounds, and every demanded text is shown by an item. -/
structure ArrayConstraints.Met (c : ArrayConstraints) (items : List Value) : Prop where
  minItems : ∀ n, c.minItems = some n → n ≤ items.length
  maxItems : ∀ n, c.maxItems = some n → items.length ≤ n
  contains : ∀ s ∈ c.contains, ∃ v ∈ items, v.display = .ok s

/-- The value compares as demanded with the other field, which may be absent or null. -/
def CrossFieldConstraint.Met (c : CrossFieldConstraint) (value : Value) (top : FoldedKeys) : Prop :=
  ∀ other, top.value? c.field = some other → other ≠ .null →
    c.operator.compare value other = .ok true

def FieldCondition.Met (c : FieldCondition) (scope : FoldedKeys) : Prop :=
  c.operator.evaluate ((scope.value? c.field).getD .null) c.value = .ok true

/-- The conditions of a declaration hold in a mapping: all of them or, where one is enough, one. -/
def FieldSpec.Active (spec : FieldSpec) (scope : FoldedKeys) : Prop :=
  match spec.conditionLogic with
  | .all => ∀ c ∈ spec.conditions, c.Met scope
  | .any => spec.conditions = [] ∨ ∃ c ∈ spec.conditions, c.Met scope

namespace Check

theorem ofValue_eq_ok {α : Type} {x : Except ValueFault α} {a : α} :
    ofValue x = .ok a ↔ x = .ok a := by
  cases x <;> simp [ofValue, Except.mapError]

end Check

theorem filter_toList_eq_nil {α : Type} {x : Option α} {p : α → Bool} :
    x.toList.filter p = [] ↔ ∀ a, x = some a → p a = false := by
  cases x <;> simp

theorem patternFindings_eq_nil_iff {c : StringConstraints} {path text : String} {fs : List Finding}
    (found : c.patternFindings path text = .ok fs) :
    fs = [] ↔ ∀ p, c.pattern = some p → p ≠ "" → ∀ node, Pattern.read p = .ok node →
      node.occursIn text = true := by
  unfold StringConstraints.patternFindings at found
  split at found
  · rename_i none
    cases found
    simp [none]
  · rename_i empty
    cases found
    simp [empty]
  · rename_i p nonempty pattern
    obtain ⟨missing, looked, found⟩ := Outcome.bind_eq_ok.1 found
    simp only [pattern, Option.some.injEq, forall_eq']
    have sense : missing = false ↔ ∀ node, Pattern.read p = .ok node → node.occursIn text = true := by
      unfold patternMissing at looked
      split at looked
      · rename_i read
        cases looked
        simp [read]
      · rename_i read
        cases looked
        simp [read]
      · cases looked
    cases missing with
    | true =>
      cases found
      simp only [reduceCtorEq, false_iff] at sense ⊢
      exact fun all => sense (all nonempty)
    | false =>
      cases found
      simp only [true_iff] at sense ⊢
      exact fun _ => sense

theorem mapM_eq_nil_iff {α β ε : Type} {f : α → Except ε β} {l : List α} {r : List β}
    (h : l.mapM f = .ok r) : r = [] ↔ l = [] := by
  have same := (Outcome.mapM_eq_ok_iff.1 h).length_eq
  rw [← List.length_eq_zero_iff, ← same, List.length_eq_zero_iff]

theorem countFindings_eq_nil_iff {bound : Option Nat} {missed : Nat → Bool} {report : String → Finding}
    {fs : List Finding} (found : countFindings bound missed report = .ok fs) :
    fs = [] ↔ ∀ n, bound = some n → missed n = false := by
  rw [mapM_eq_nil_iff found, filter_toList_eq_nil]

theorem StringConstraints.findings_eq_nil_iff {c : StringConstraints} {path text : String}
    {fs : List Finding} (found : c.findings path text = .ok fs) : fs = [] ↔ c.Met text := by
  obtain ⟨mismatch, looked, found⟩ := Outcome.bind_eq_ok.1 found
  obtain ⟨short, below, found⟩ := Outcome.bind_eq_ok.1 found
  obtain ⟨long, above, found⟩ := Outcome.bind_eq_ok.1 found
  cases found
  simp only [List.append_eq_nil_iff, patternFindings_eq_nil_iff looked, countFindings_eq_nil_iff below,
    countFindings_eq_nil_iff above, decide_eq_false_iff_not, Nat.not_lt]
  exact ⟨fun h => ⟨h.1.1, h.1.2, h.2⟩, fun h => ⟨⟨h.pattern, h.minLength⟩, h.maxLength⟩⟩

theorem NumberConstraints.findings_eq_nil_iff {c : NumberConstraints} {path : String} {n : Scalar}
    {fs : List Finding} (found : c.findings path n = .ok fs) : fs = [] ↔ c.Met n := by
  obtain ⟨shown, _, found⟩ := Outcome.bind_eq_ok.1 found
  obtain ⟨small, below, found⟩ := Outcome.bind_eq_ok.1 found
  obtain ⟨large, above, found⟩ := Outcome.bind_eq_ok.1 found
  cases found
  rw [List.append_eq_nil_iff, mapM_eq_nil_iff below, mapM_eq_nil_iff above, filter_toList_eq_nil,
    filter_toList_eq_nil]
  exact ⟨fun h => ⟨h.1, h.2⟩, fun h => ⟨h.min, h.max⟩⟩

theorem DateConstraints.findings_eq_nil_iff {c : DateConstraints} {path : String} {v : Value}
    {fs : List Finding} (found : c.findings path v = .ok fs) : fs = [] ↔ c.Met v := by
  unfold DateConstraints.findings at found
  split at found
  · rename_i none
    cases found
    simp only [true_iff]
    exact ⟨by simp [none], by simp [none]⟩
  · rename_i t instant
    split at found
    · cases found
    · cases found
      simp only [List.append_eq_nil_iff, List.map_eq_nil_iff, filter_toList_eq_nil]
      constructor
      · rintro ⟨early, late⟩
        constructor
        · intro u b found bound
          obtain rfl := Option.some.inj (instant.symm.trans found)
          exact early b bound
        · intro u b found bound
          obtain rfl := Option.some.inj (instant.symm.trans found)
          exact late b bound
      · exact fun met => ⟨fun b => met.min t b instant, fun b => met.max t b instant⟩

theorem mem_displays {items : List Value} {shown : List String} (h : Value.displays items = .ok shown)
    (s : String) : s ∈ shown ↔ ∃ v ∈ items, v.display = .ok s := by
  induction items generalizing shown with
  | nil =>
    cases h
    simp
  | cons v rest ih =>
    unfold Value.displays at h
    obtain ⟨first, own, h⟩ := Outcome.bind_eq_ok.1 h
    obtain ⟨others, behind, h⟩ := Outcome.bind_eq_ok.1 h
    cases h
    simp [ih behind, own, eq_comm]

theorem lackingFindings_eq_nil_iff {c : ArrayConstraints} {path : String} {items : List Value}
    {fs : List Finding} (found : c.lackingFindings path items = .ok fs) :
    fs = [] ↔ ∀ s ∈ c.contains, ∃ v ∈ items, v.display = .ok s := by
  unfold ArrayConstraints.lackingFindings at found
  split at found
  · rename_i empty
    cases found
    simp [List.isEmpty_iff.1 empty]
  · obtain ⟨present, shown, found⟩ := Outcome.bind_eq_ok.1 found
    cases found
    rw [List.map_eq_nil_iff, List.filter_eq_nil_iff]
    simp only [Bool.not_eq_true', Bool.not_eq_false, List.contains_iff_mem,
      mem_displays (Check.ofValue_eq_ok.1 shown)]

theorem ArrayConstraints.findings_eq_nil_iff {c : ArrayConstraints} {path : String}
    {items : List Value} {fs : List Finding} (found : c.findings path items = .ok fs) :
    fs = [] ↔ c.Met items := by
  obtain ⟨few, below, found⟩ := Outcome.bind_eq_ok.1 found
  obtain ⟨many, above, found⟩ := Outcome.bind_eq_ok.1 found
  obtain ⟨lacking, looked, found⟩ := Outcome.bind_eq_ok.1 found
  cases found
  simp only [List.append_eq_nil_iff, countFindings_eq_nil_iff below, countFindings_eq_nil_iff above,
    decide_eq_false_iff_not, Nat.not_lt, lackingFindings_eq_nil_iff looked]
  exact ⟨fun h => ⟨h.1.1, h.1.2, h.2⟩, fun h => ⟨⟨h.minItems, h.maxItems⟩, h.contains⟩⟩

theorem CrossFieldConstraint.findings_eq_nil_iff {c : CrossFieldConstraint} {path : String}
    {v : Value} {top : FoldedKeys} {fs : List Finding} (found : c.findings path v top = .ok fs) :
    fs = [] ↔ c.Met v top := by
  unfold CrossFieldConstraint.findings at found
  unfold CrossFieldConstraint.Met
  split at found
  · rename_i absent
    cases found
    simp [absent]
  · rename_i null
    cases found
    simp [null]
  · rename_i other there present
    obtain ⟨verdict, compared, found⟩ := Outcome.bind_eq_ok.1 found
    have compared : c.operator.compare v other = .ok verdict := by
      cases result : c.operator.compare v other <;> simp_all [Except.mapError]
    simp only [present, Option.some.injEq, forall_eq', compared, Except.ok.injEq]
    cases verdict with
    | true =>
      cases found
      simp
    | false =>
      obtain ⟨shown, _, found⟩ := Outcome.bind_eq_ok.1 found
      cases found
      simpa using there

end VaultSchema
