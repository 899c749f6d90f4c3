import Mathlib
import VaultSchema.Proofs.Schema.Constraint
import VaultSchema.Proofs.Schema.Findings

set_option autoImplicit false

namespace VaultSchema

def FieldSpec.ValueMet (spec : FieldSpec) (value : Value) : Prop :=
  match spec.type, value with
  | .primitive .string, .text s => ∀ c, spec.stringConstraints = some c → c.Met s
  | .primitive .number, .scalar n => ∀ c, spec.numberConstraints = some c → c.Met n
  | .primitive .date, v => ∀ c, spec.dateConstraints = some c → c.Met v
  | .primitive .array, .sequence _ items => ∀ c, spec.arrayConstraints = some c → c.Met items
  | _, _ => True

mutual

/-- A group conforms in a mapping: none of its variants is active there, or it has no value and no
active variant asks for one, or its value conforms to the first active variant whose type it has. -/
inductive GroupConforms (r : Registry) (top : FoldedKeys) :
    FoldedKeys → FieldGroup → Option Value → Prop where
  | inactive {scope : FoldedKeys} {g : FieldGroup} {present : Option Value}
      (none : ∀ s ∈ g.variants, ¬ s.Active scope) : GroupConforms r top scope g present
  | absent {scope : FoldedKeys} {g : FieldGroup}
      (free : ∀ s ∈ g.variants, s.Active scope → s.required = false ∧ s.warn = false) :
      GroupConforms r top scope g none
  | present {scope : FoldedKeys} {g : FieldGroup} {v : Value} (before : List FieldSpec)
      (spec : FieldSpec) (after : List FieldSpec) (order : g.variants = before ++ spec :: after)
      (active : spec.Active scope) (fits : r.fits v spec.type = true)
      (first : ∀ s ∈ before, s.Active scope → r.fits v s.type = false)
      (conforms : ValueConforms r top spec v) : GroupConforms r top scope g (some v)

/-- A value conforms to a declaration of its type: it meets the demands on it alone, its elements are
of the declared element type and conform to it, a mapping conforms to its declared type, and the
comparison with another field of the note holds. -/
inductive ValueConforms (r : Registry) (top : FoldedKeys) : FieldSpec → Value → Prop where
  | intro {spec : FieldSpec} {v : Value} (met : spec.ValueMet v)
      (elementsFit : ∀ kind items e, spec.type = .primitive .array → v = .sequence kind items →
        spec.elementType = some e → ∀ x ∈ items, r.fits x e = true)
      (elementsConform : ∀ kind items e, spec.type = .primitive .array → v = .sequence kind items →
        spec.elementType = some e → ∀ x ∈ items, ∀ t m, r.resolve? e = some t → x = .mapping m →
        ObjectConforms r top t m)
      (inner : ∀ t m, r.resolve? spec.type = some t → v = .mapping m → ObjectConforms r top t m)
      (cross : ∀ c, spec.crossField = some c → c.Met v top) : ValueConforms r top spec v

/-- A mapping conforms to a declared type: each of its keys is a declared name, and every group of
the type conforms in it. -/
inductive ObjectConforms (r : Registry) (top : FoldedKeys) : NamedType → Entries → Prop where
  | intro {t : NamedType} {m : Entries} {scope : FoldedKeys}
      (declared : ∀ e ∈ m, ∃ f ∈ t.fields, e.1 = .text f.name)
      (keys : FoldedKeys.ofEntries m = .ok scope)
      (groups : ∀ g ∈ t.groups, GroupConforms r top scope g (Entries.get? g.name m)) :
      ObjectConforms r top t m

end

/-- A note conforms to a schema: every group of the schema conforms, and where undeclared keys count
each key but that of hosts is declared, in whatever case. -/
def Registry.Conforms (r : Registry) (s : Schema) (m : Entries) (checkUnknown : Bool) : Prop :=
  ∃ top, FoldedKeys.ofEntries m = .ok top ∧
    (∀ g ∈ s.groups, GroupConforms r top top g (top.value? g.name)) ∧
    (checkUnknown = true → ∀ e ∈ m, e.1 ≠ .text "position" →
      ∃ name, e.1.spelling = .ok name ∧ ∃ f ∈ s.fields, Text.lower f.name = Text.lower name)

theorem Scalar.sameKey_text_iff (k : Scalar) (name : String) :
    k.sameKey (.text name) = true ↔ k = .text name := by
  cases k <;> simp [Scalar.sameKey, Scalar.rank?]

theorem flatten_eq_nil_iff_forall₂ {α β : Type} {p : α → List β → Prop} {q : α → Prop}
    {l : List α} {r : List (List β)} (h : List.Forall₂ p l r)
    (each : ∀ a ∈ l, ∀ fs, p a fs → (fs = [] ↔ q a)) : r.flatten = [] ↔ ∀ a ∈ l, q a := by
  induction h with
  | nil => simp
  | @cons a fs l r ha _ ih =>
    have rest := ih fun b hb => each b (by simp [hb])
    simp only [List.flatten_cons, List.append_eq_nil_iff, List.forall_mem_cons, rest,
      each a (by simp) fs ha]

namespace Registry

theorem conditionsHold_iff {spec : FieldSpec} {scope : FoldedKeys} {b : Bool}
    (h : conditionsHold spec scope = .ok b) : b = true ↔ spec.Active scope := by
  obtain ⟨results, evaluated, h⟩ := Outcome.bind_eq_ok.1 h
  cases h
  have pairs := Outcome.mapM_eq_ok_iff.1 evaluated
  simp only [Check.ofValue_eq_ok] at pairs
  unfold ConditionLogic.verdict FieldSpec.Active FieldCondition.Met
  clear evaluated h
  generalize spec.conditions = conditions at pairs
  cases spec.conditionLogic with
  | all =>
    dsimp only
    induction pairs with
    | nil => simp
    | cons hb _ ih =>
      rw [List.all_cons, Bool.and_eq_true, List.forall_mem_cons, hb]
      exact and_congr (by simp) ih
  | any =>
    have some : results.any id = true ↔ ∃ c ∈ conditions,
        c.operator.evaluate ((scope.value? c.field).getD .null) c.value = .ok true := by
      induction pairs with
      | nil => simp
      | cons hb _ ih =>
        rw [List.any_cons, Bool.or_eq_true, List.exists_mem_cons_iff, hb]
        exact or_congr (by simp) ih
    have empty : results.isEmpty = true ↔ conditions = [] := by
      cases pairs <;> simp
    simp only [Bool.or_eq_true, some, empty]

theorem activeVariants_eq_ok {g active : FieldGroup} {scope : FoldedKeys}
    (h : activeVariants g scope = .ok active) :
    ∃ keep : FieldSpec → Bool, active = ⟨g.name, g.variants.filter keep⟩ ∧
      ∀ s ∈ g.variants, keep s = true ↔ s.Active scope := by
  obtain ⟨kept, filtered, h⟩ := Outcome.bind_eq_ok.1 h
  cases h
  obtain ⟨all, rfl⟩ := Outcome.filterM_eq_ok_iff.1 filtered
  refine ⟨_, rfl, ?_⟩
  intro s mem
  obtain ⟨b, verdict⟩ := all s mem
  rw [verdict]
  exact conditionsHold_iff verdict

theorem absenceFindings_eq_nil_iff (g : FieldGroup) (path : String) :
    absenceFindings g path = [] ↔ ∀ s ∈ g.variants, s.required = false ∧ s.warn = false := by
  unfold absenceFindings FieldGroup.isWarned FieldGroup.isRequired
  cases required : g.variants.any (·.required) with
  | true =>
    obtain ⟨s, mem, asks⟩ := List.any_eq_true.1 required
    simp only [if_true, List.cons_ne_nil, false_iff]
    intro all
    simp [(all s mem).1] at asks
  | false =>
    have free := List.any_eq_false.1 required
    cases warned : g.variants.any (·.warn) with
    | true =>
      obtain ⟨s, mem, asks⟩ := List.any_eq_true.1 warned
      simp only [Bool.false_eq_true, if_false, Bool.not_false, Bool.and_self, if_true,
        List.cons_ne_nil, false_iff]
      intro all
      simp [(all s mem).2] at asks
    | false =>
      have quiet := List.any_eq_false.1 warned
      simp only [Bool.false_eq_true, if_false, Bool.not_false, Bool.and_false, true_iff]
      exact fun s mem => ⟨by simpa using free s mem, by simpa using quiet s mem⟩

theorem plainFindings_eq_nil_iff {value : Value} {spec : FieldSpec} {path : String}
    {fs : List Finding} (found : plainFindings value spec path = .ok fs) :
    fs = [] ↔ spec.ValueMet value := by
  have step : ∀ {γ : Type} {c : Option γ} {check : γ → Check (List Finding)} {met : γ → Prop},
      (∀ c fs, check c = .ok fs → (fs = [] ↔ met c)) →
      (c.map check).getD (.ok []) = .ok fs → (fs = [] ↔ ∀ k, c = some k → met k) := by
    intro γ c check met each found
    cases c with
    | none =>
      cases found
      simp
    | some k => simpa using each k fs found
  unfold plainFindings at found
  split at found
  · rename_i type
    simp only [FieldSpec.ValueMet, type]
    exact step (fun _ _ => StringConstraints.findings_eq_nil_iff) found
  · rename_i type
    simp only [FieldSpec.ValueMet, type]
    exact step (fun _ _ => NumberConstraints.findings_eq_nil_iff) found
  · rename_i type
    simp only [FieldSpec.ValueMet, type]
    exact step (fun _ _ => DateConstraints.findings_eq_nil_iff) found
  · rename_i type
    simp only [FieldSpec.ValueMet, type]
    exact step (fun _ _ => ArrayConstraints.findings_eq_nil_iff) found
  · clear step
    cases found
    unfold FieldSpec.ValueMet
    split <;> simp_all

theorem crossFindings_eq_nil_iff {value : Value} {spec : FieldSpec} {path : String}
    {top : FoldedKeys} {fs : List Finding} (found : crossFindings value spec path top = .ok fs) :
    fs = [] ↔ ∀ c, spec.crossField = some c → c.Met value top := by
  unfold crossFindings at found
  split at found
  · rename_i c declared
    simpa [declared] using CrossFieldConstraint.findings_eq_nil_iff found
  · rename_i none
    cases found
    simp [none]

theorem strayKeys_eq_nil_iff {m : Entries} {t : NamedType} {path : String} {fs : List Finding}
    (found : strayKeys m t path = .ok fs) :
    fs = [] ↔ ∀ e ∈ m, ∃ f ∈ t.fields, e.1 = .text f.name := by
  rw [mapM_eq_nil_iff found, List.filter_eq_nil_iff]
  simp [Scalar.sameKey_text_iff]

variable {r : Registry} {top : FoldedKeys}

theorem find?_filter_eq_some_iff {variants : List FieldSpec} {keep fits : FieldSpec → Bool}
    {active : FieldSpec → Prop} (sense : ∀ s ∈ variants, keep s = true ↔ active s) {spec : FieldSpec} :
    (variants.filter keep).find? fits = some spec ↔ ∃ before after, variants = before ++ spec :: after ∧
      active spec ∧ fits spec = true ∧ ∀ s ∈ before, active s → fits s = false := by
  rw [List.find?_filter, List.find?_eq_some_iff_append]
  simp only [decide_eq_true_eq, Bool.not_eq_true', decide_eq_false_iff_not, not_and, Bool.not_eq_true]
  constructor
  · rintro ⟨⟨kept, own⟩, before, after, order, first⟩
    exact ⟨before, after, order, (sense spec (by simp [order])).1 kept, own,
      fun s mem holds => first s mem ((sense s (by simp [order, mem])).2 holds)⟩
  · rintro ⟨before, after, order, holds, own, first⟩
    exact ⟨⟨(sense spec (by simp [order])).2 holds, own⟩, before, after, order,
      fun s mem kept => first s mem ((sense s (by simp [order, mem])).1 kept)⟩

theorem groupFindingsIn_eq_nil_iff {scope : FoldedKeys} {g : FieldGroup} {place : String}
    {present : Option Value} {fs : List Finding}
    (value : ∀ v, present = some v → ∀ (active : FieldGroup) (fs : List Finding),
      r.valueFindings top active place v = .ok fs →
      (fs = [] ↔ ∃ spec, r.variant? v active.variants = some spec ∧ ValueConforms r top spec v))
    (found : r.groupFindingsIn top scope g place present = .ok fs) :
    fs = [] ↔ GroupConforms r top scope g present := by
  obtain ⟨active, kept, found⟩ := Outcome.bind_eq_ok.1 found
  obtain ⟨keep, rfl, sense⟩ := activeVariants_eq_ok kept
  dsimp only at found
  split at found
  · rename_i none
    cases found
    simp only [true_iff]
    refine .inactive fun s mem holds => ?_
    have kept := (sense s mem).2 holds
    simp only [List.isEmpty_iff, List.filter_eq_nil_iff] at none
    exact none s mem kept
  · rename_i some
    have some : ∃ s ∈ g.variants, s.Active scope := by
      simp only [List.isEmpty_iff, List.filter_eq_nil_iff, not_forall, not_not] at some
      obtain ⟨s, mem, kept⟩ := some
      exact ⟨s, mem, (sense s mem).1 kept⟩
    obtain ⟨s₀, mem₀, active₀⟩ := some
    cases present with
    | none =>
      cases found
      rw [absenceFindings_eq_nil_iff]
      constructor
      · intro free
        exact .absent fun s mem holds => free s (List.mem_filter.2 ⟨mem, (sense s mem).2 holds⟩)
      · intro conforms s mem
        obtain ⟨mem, kept⟩ := List.mem_filter.1 mem
        cases conforms with
        | inactive none => exact (none s₀ mem₀ active₀).elim
        | absent free => exact free s mem ((sense s mem).1 kept)
    | some v =>
      rw [value v rfl _ _ found]
      unfold variant?
      constructor
      · rintro ⟨spec, chosen, conforms⟩
        obtain ⟨before, after, order, holds, fits, first⟩ := (find?_filter_eq_some_iff sense).1 chosen
        exact .present before spec after order holds fits first conforms
      · intro conforms
        cases conforms with
        | inactive none => exact (none s₀ mem₀ active₀).elim
        | present before spec after order active fits first conforms =>
          exact ⟨spec, (find?_filter_eq_some_iff sense).2 ⟨before, after, order, active, fits, first⟩, conforms⟩

theorem memberFindings_eq_nil_iff {type : FieldType} {place : String} {v : Value} {fs : List Finding}
    (object : ∀ t m, v = .mapping m → ∀ fs, r.objectFindings top t place m = .ok fs →
      (fs = [] ↔ ObjectConforms r top t m))
    (found : r.memberFindings top type place v = .ok fs) :
    fs = [] ↔ ∀ t m, r.resolve? type = some t → v = .mapping m → ObjectConforms r top t m := by
  unfold memberFindings at found
  split at found
  · rename_i m t resolved
    rw [object t m rfl fs found]
    constructor
    · rintro conforms u n resolves same
      cases same
      obtain rfl := Option.some.inj (resolved.symm.trans resolves)
      exact conforms
    · exact fun all => all t m resolved rfl
  · rename_i none
    cases found
    simp only [true_iff]
    exact fun t m resolves same => (none m t same resolves).elim

theorem arrayFindings_eq_nil_iff {spec : FieldSpec} {path : String} {v : Value} {fs : List Finding}
    (each : ∀ kind items, v = .sequence kind items → ∀ e fs, r.elementFindings top e path 0 items = .ok fs →
      (fs = [] ↔ ∀ x ∈ items, r.fits x e = true ∧
        ∀ t m, r.resolve? e = some t → x = .mapping m → ObjectConforms r top t m))
    (found : r.arrayFindings top spec path v = .ok fs) :
    fs = [] ↔ ∀ kind items e, spec.type = .primitive .array → v = .sequence kind items →
      spec.elementType = some e → ∀ x ∈ items, r.fits x e = true ∧
        ∀ t m, r.resolve? e = some t → x = .mapping m → ObjectConforms r top t m := by
  unfold arrayFindings at found
  split at found
  · rename_i e items enter
    obtain ⟨type, elem, kind, same⟩ := elementsToEnter_eq_some_iff.1 enter
    rw [each kind items same e fs found]
    constructor
    · intro all kind' ys f _ same' elem'
      obtain ⟨-, rfl⟩ := Value.sequence.inj (same.symm.trans same')
      obtain rfl := Option.some.inj (elem.symm.trans elem')
      exact all
    · exact fun all => all kind items e type same elem
  · rename_i none
    cases found
    simp only [true_iff]
    intro kind ys e type same elem
    rw [elementsToEnter_eq_some_iff.2 ⟨type, elem, kind, same⟩] at none
    cases none

mutual

theorem valueFindings_eq_nil_iff (v : Value) {g : FieldGroup} {path : String} {fs : List Finding}
    (found : r.valueFindings top g path v = .ok fs) :
    fs = [] ↔ ∃ spec, r.variant? v g.variants = some spec ∧ ValueConforms r top spec v := by
  rw [valueFindings_step] at found
  split at found
  · rename_i none
    cases found
    simp [none]
  · rename_i spec chosen
    obtain ⟨own, plain, found⟩ := Outcome.bind_eq_ok.1 found
    obtain ⟨elements, walked, found⟩ := Outcome.bind_eq_ok.1 found
    obtain ⟨inner, entered, found⟩ := Outcome.bind_eq_ok.1 found
    obtain ⟨cross, compared, found⟩ := Outcome.bind_eq_ok.1 found
    cases found
    have items : elements = [] ↔ ∀ kind items e, spec.type = .primitive .array →
        v = .sequence kind items → spec.elementType = some e → ∀ x ∈ items, r.fits x e = true ∧
        ∀ t m, r.resolve? e = some t → x = .mapping m → ObjectConforms r top t m := by
      refine arrayFindings_eq_nil_iff (fun kind xs same e fs found => ?_) walked
      have smaller : sizeOf xs < sizeOf v := by
        rw [same, Value.sequence.sizeOf_spec]
        omega
      exact elementFindings_eq_nil_iff xs found
    have members : inner = [] ↔
        ∀ t m, r.resolve? spec.type = some t → v = .mapping m → ObjectConforms r top t m := by
      cases v with
      | mapping m =>
        refine memberFindings_eq_nil_iff ?_ entered
        intro t m' same fs found
        cases same
        exact objectFindings_eq_nil_iff m found
      | _ => exact memberFindings_eq_nil_iff (fun t m same => by cases same) entered
    simp only [List.append_eq_nil_iff, plainFindings_eq_nil_iff plain, items, members,
      crossFindings_eq_nil_iff compared, chosen, Option.some.injEq, exists_eq_left']
    constructor
    · rintro ⟨⟨⟨met, elements⟩, inner⟩, cross⟩
      exact .intro met (fun k xs e ha hv he x hx => (elements k xs e ha hv he x hx).1)
        (fun k xs e ha hv he x hx => (elements k xs e ha hv he x hx).2) inner cross
    · rintro ⟨met, fit, conform, inner, cross⟩
      exact ⟨⟨⟨met, fun k xs e ha hv he x hx =>
        ⟨fit k xs e ha hv he x hx, conform k xs e ha hv he x hx⟩⟩, inner⟩, cross⟩
termination_by (sizeOf v, 1)

theorem elementFindings_eq_nil_iff (items : List Value) {type : FieldType} {path : String}
    {position : Nat} {fs : List Finding}
    (found : r.elementFindings top type path position items = .ok fs) :
    fs = [] ↔ ∀ x ∈ items, r.fits x type = true ∧
      ∀ t m, r.resolve? type = some t → x = .mapping m → ObjectConforms r top t m := by
  cases items with
  | nil =>
    rw [elementFindings_nil] at found
    cases found
    simp
  | cons v rest =>
    rw [elementFindings_cons] at found
    obtain ⟨own, first, found⟩ := Outcome.bind_eq_ok.1 found
    obtain ⟨others, behind, found⟩ := Outcome.bind_eq_ok.1 found
    cases found
    have tail := elementFindings_eq_nil_iff rest behind
    have head : own = [] ↔ r.fits v type = true ∧
        ∀ t m, r.resolve? type = some t → v = .mapping m → ObjectConforms r top t m := by
      cases fits : r.fits v type with
      | false =>
        rw [fits] at first
        cases first
        simp
      | true =>
        rw [fits, cond_true] at first
        simp only [true_and]
        cases v with
        | mapping m =>
          refine memberFindings_eq_nil_iff ?_ first
          intro t m' same fs found
          cases same
          exact objectFindings_eq_nil_iff m found
        | _ => exact memberFindings_eq_nil_iff (fun t m same => by cases same) first
    rw [List.append_eq_nil_iff, List.forall_mem_cons, head, tail]
termination_by (sizeOf items, 0)

theorem objectFindings_eq_nil_iff (m : Entries) {t : NamedType} {path : String} {fs : List Finding}
    (found : r.objectFindings top t path m = .ok fs) : fs = [] ↔ ObjectConforms r top t m := by
  rw [objectFindings_step] at found
  obtain ⟨stray, strays, found⟩ := Outcome.bind_eq_ok.1 found
  obtain ⟨scope, keys, found⟩ := Outcome.bind_eq_ok.1 found
  obtain ⟨inner, groups, found⟩ := Outcome.bind_eq_ok.1 found
  cases found
  have keys := Check.ofValue_eq_ok.1 keys
  have groups := flatten_eq_nil_iff_forall₂ (Outcome.mapM_eq_ok_iff.1 groups)
    (q := fun g => GroupConforms r top scope g (Entries.get? g.name m)) (by
      intro g _ fs found
      refine groupFindingsIn_eq_nil_iff ?_ found
      intro v present active fs found
      have smaller := Entries.sizeOf_get?_lt present
      exact valueFindings_eq_nil_iff v found)
  rw [List.append_eq_nil_iff, strayKeys_eq_nil_iff strays, groups]
  constructor
  · exact fun h => .intro h.1 keys h.2
  · rintro ⟨declared, keys', conform⟩
    obtain rfl := Except.ok.inj (keys.symm.trans keys')
    exact ⟨declared, conform⟩
termination_by (sizeOf m, 0)

end

theorem undeclaredKeys_eq_nil_iff {s : Schema} {m : Entries} {fs : List Finding}
    (found : undeclaredKeys s m = .ok fs) :
    fs = [] ↔ ∀ e ∈ m, e.1 ≠ .text "position" →
      ∃ name, e.1.spelling = .ok name ∧ ∃ f ∈ s.fields, Text.lower f.name = Text.lower name := by
  obtain ⟨names, spelt, found⟩ := Outcome.bind_eq_ok.1 found
  cases found
  have pairs := Outcome.mapM_eq_ok_iff.1 spelt
  have declared : ∀ name, s.declares name = true ↔
      ∃ f ∈ s.fields, Text.lower f.name = Text.lower name := by
    intro name
    simp [Schema.declares]
  have keys : ∀ e ∈ m, e ∈ m.filter (fun e => !isHostKey e.1) ↔ e.1 ≠ .text "position" := by
    intro e mem
    simp only [List.mem_filter, mem, true_and, Bool.not_eq_true', isHostKey,
      ← Bool.not_eq_true, Scalar.sameKey_text_iff, ne_eq]
  have through : (∀ n ∈ names, s.declares n = true) ↔
      ∀ e ∈ m.filter (fun e => !isHostKey e.1),
        ∃ name, e.1.spelling = .ok name ∧ s.declares name = true := by
    clear keys spelt found
    generalize m.filter (fun e => !isHostKey e.1) = own at pairs
    induction pairs with
    | nil => simp
    | cons hb _ ih =>
      rw [List.forall_mem_cons, List.forall_mem_cons, ih, Check.ofValue_eq_ok.1 hb]
      simp only [Except.ok.injEq, exists_eq_left']
  rw [List.map_eq_nil_iff, List.filter_eq_nil_iff]
  simp only [Bool.not_eq_true', Bool.not_eq_false]
  rw [through]
  simp only [declared]
  exact ⟨fun h e mem other => h e ((keys e mem).2 other),
    fun h e mem => h e (List.mem_of_mem_filter mem) ((keys e (List.mem_of_mem_filter mem)).1 mem)⟩

/-- Validation on which nothing faults finds no violation in just the notes that conform. -/
theorem validate_eq_nil_iff (r : Registry) (document : String) (frontmatter : Option Entries)
    (s : Schema) (checkUnknown : Bool) (vs : List Violation)
    (validated : r.validate document frontmatter s checkUnknown = .ok vs) :
    vs = [] ↔ r.Conforms s (frontmatter.getD []) checkUnknown := by
  obtain ⟨fs, found, validated⟩ := Outcome.bind_eq_ok.1 validated
  cases validated
  rw [List.map_eq_nil_iff]
  obtain ⟨top, keys, found⟩ := Outcome.bind_eq_ok.1 found
  obtain ⟨declared, groups, found⟩ := Outcome.bind_eq_ok.1 found
  have keys := Check.ofValue_eq_ok.1 keys
  have groups := flatten_eq_nil_iff_forall₂ (Outcome.mapM_eq_ok_iff.1 groups)
    (q := fun g => GroupConforms r top top g (top.value? g.name)) (by
      intro g _ fs found
      rw [groupFindings_step] at found
      exact groupFindingsIn_eq_nil_iff (fun v _ _ _ found => valueFindings_eq_nil_iff v found) found)
  have unknown : ∃ unknown, fs = declared.flatten ++ unknown ∧ (unknown = [] ↔
      (checkUnknown = true → ∀ e ∈ frontmatter.getD [], e.1 ≠ .text "position" →
        ∃ name, e.1.spelling = .ok name ∧ ∃ f ∈ s.fields, Text.lower f.name = Text.lower name)) := by
    cases checkUnknown with
    | false =>
      cases found
      exact ⟨[], rfl, by simp⟩
    | true =>
      obtain ⟨unknown, looked, found⟩ := Outcome.bind_eq_ok.1 found
      cases found
      exact ⟨unknown, rfl, by simpa using undeclaredKeys_eq_nil_iff looked⟩
  obtain ⟨unknown, rfl, free⟩ := unknown
  rw [List.append_eq_nil_iff, groups, free]
  constructor
  · exact fun h => ⟨top, keys, h⟩
  · rintro ⟨top', keys', conform⟩
    obtain rfl := Except.ok.inj (keys.symm.trans keys')
    exact conform

def people : Registry where
  types := [⟨"person", [{ name := "name", type := .primitive .string, required := true }]⟩]

def novels : Schema where
  id := "novels"
  query := "#novel"
  fields := [{ name := "Authors", type := .primitive .array, elementType := some (.named "person") }]

def dune : Entries :=
  [(.text "authors", .sequence .list [.mapping [(.text "name", .text "Frank Herbert")]])]

theorem dune_conforms :
    people.validate "Dune.md" (some dune) novels true = .ok [] ∧ people.Conforms novels dune true := by
  have validated : people.validate "Dune.md" (some dune) novels true = .ok [] := by cbv
  exact ⟨validated, (validate_eq_nil_iff _ _ _ _ _ _ validated).1 rfl⟩

end Registry
end VaultSchema
