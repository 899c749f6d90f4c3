import VaultSchema.Proofs.Schema.Constraint
import VaultSchema.Proofs.Schema.Reach

/-! Where the faults of a validation come from. The walk through a note adds none of its own: if the
conversions of values and the checks of single declarations fault, where they do, with faults of one
kind, so does the validation of the whole note. -/

set_option autoImplicit false

namespace VaultSchema

theorem FoldedKeys.exists_of_ofEntries_error {m : Entries} {e : ValueFault}
    (faults : FoldedKeys.ofEntries m = .error e) : ∃ entry ∈ m, entry.1.spelling = .error e := by
  induction m with
  | nil => cases faults
  | cons entry rest ih =>
    obtain ⟨key, value⟩ := entry
    rcases Outcome.bind_eq_error.1 faults with faults | ⟨_, _, faults⟩
    · exact ⟨(key, value), by simp, faults⟩
    · rcases Outcome.bind_eq_error.1 faults with faults | ⟨_, _, faults⟩
      · obtain ⟨entry, mem, faults⟩ := ih faults
        exact ⟨entry, by simp [mem], faults⟩
      · cases faults

theorem FoldedKeys.exists_of_mem {m : Entries} {keys : FoldedKeys} (folded : FoldedKeys.ofEntries m = .ok keys) :
    ∀ row ∈ keys.entries, ∃ entry ∈ m, entry.2 = row.2.2 := by
  induction m generalizing keys with
  | nil =>
    cases folded
    simp
  | cons entry rest ih =>
    obtain ⟨key, value⟩ := entry
    obtain ⟨name, _, folded⟩ := Outcome.bind_eq_ok.1 folded
    obtain ⟨others, inner, folded⟩ := Outcome.bind_eq_ok.1 folded
    cases folded
    intro row mem
    rcases List.mem_cons.1 mem with rfl | mem
    · exact ⟨(key, value), by simp, rfl⟩
    · obtain ⟨entry, inside, same⟩ := ih inner row mem
      exact ⟨entry, by simp [inside], same⟩

theorem FoldedKeys.exists_of_value? {m : Entries} {keys : FoldedKeys} (folded : FoldedKeys.ofEntries m = .ok keys)
    {name : String} {v : Value} (found : keys.value? name = some v) : ∃ entry ∈ m, entry.2 = v := by
  unfold FoldedKeys.value? at found
  split at found
  · cases found
  · cases found
  · rename_i key value _ there
    cases found
    obtain ⟨row, first, same⟩ := Option.map_eq_some_iff.1 there
    obtain ⟨entry, mem, value⟩ := exists_of_mem folded row (List.mem_of_find?_eq_some first)
    exact ⟨entry, mem, by rw [value, same]⟩

theorem Entries.exists_of_get? {m : Entries} {name : String} {v : Value} (found : Entries.get? name m = some v) :
    ∃ entry ∈ m, entry.2 = v := by
  obtain ⟨entry, first, same⟩ := Option.map_eq_some_iff.1 found
  exact ⟨entry, List.mem_of_find?_eq_some first, same⟩

def CheckFault.ofValue (e : ValueFault) : CheckFault := .comparison (.value e)

/-- Two fields are compared by a comparison operator, if at all. -/
def FieldSpec.Compares (f : FieldSpec) : Prop := ∀ c, f.crossField = some c → c.operator.isComparison = true

def FieldSpec.counts (f : FieldSpec) : List Nat :=
  (f.stringConstraints.toList.flatMap fun c => c.minLength.toList ++ c.maxLength.toList) ++
    f.arrayConstraints.toList.flatMap fun c => c.minItems.toList ++ c.maxItems.toList

def FieldSpec.bounds (f : FieldSpec) : List Binary64 :=
  f.numberConstraints.toList.flatMap fun c => c.min.toList ++ c.max.toList

def FieldSpec.pattern? (f : FieldSpec) : Option String := f.stringConstraints.bind (·.pattern)

namespace Registry

open Outcome

def Keeps (good : Value → Prop) (keys : FoldedKeys) : Prop := ∀ name v, keys.value? name = some v → good v

/-- What conversions of good values and of the parts of fine declarations keep to, for the walk to have
faults of one kind alone. -/
structure Sound (P : CheckFault → Prop) (good : Value → Prop) (fine : FieldSpec → Prop) : Prop where
  null : good .null
  item {kind : SequenceKind} {items : List Value} : good (.sequence kind items) → ∀ v ∈ items, good v
  entry {m : Entries} : good (.mapping m) → ∀ e ∈ m, good e.2
  key {m : Entries} : good (.mapping m) → ∀ e ∈ m, Within (P ∘ .ofValue) e.1.spelling
  number {v : Value} : good v → Within (P ∘ .ofValue) v.number
  display {v : Value} : good v → Within (P ∘ .ofValue) v.display
  day {v : Value} {t : Binary64} : good v → PrimitiveKind.date.accepts v = true → v.timestamp? = some t →
    Moment.dateOfTimestamp? t = none → P (.ofValue .yearOutOfRange)
  compares {f : FieldSpec} : fine f → f.Compares
  pattern {f : FieldSpec} {p : String} {e : Pattern.PatternFault} : fine f → f.pattern? = some p →
    Pattern.read p = .error e → e ≠ .malformed → P (.pattern e)
  count {f : FieldSpec} {n : Nat} : fine f → n ∈ f.counts → Within (P ∘ .ofValue) (integerText n)
  bound {f : FieldSpec} {b : Binary64} : fine f → b ∈ f.bounds → Within (P ∘ .ofValue) (Value.displayFloat b)

variable {P : CheckFault → Prop} {good : Value → Prop} {fine : FieldSpec → Prop} {r : Registry}
  {top scope : FoldedKeys}

theorem within_ofValue {α : Type} {x : Except ValueFault α} :
    Within P (Check.ofValue x) ↔ Within (P ∘ .ofValue) x := within_mapError

theorem Sound.folded (sound : Sound P good fine) {m : Entries} (h : good (.mapping m)) :
    Within P (Check.ofValue (FoldedKeys.ofEntries m)) := by
  rw [within_ofValue]
  intro e faults
  obtain ⟨entry, mem, spelt⟩ := FoldedKeys.exists_of_ofEntries_error faults
  exact sound.key h entry mem e spelt

theorem Sound.keeps (sound : Sound P good fine) {m : Entries} (h : good (.mapping m)) {keys : FoldedKeys}
    (folded : Check.ofValue (FoldedKeys.ofEntries m) = .ok keys) : Keeps good keys := by
  intro name v found
  obtain ⟨entry, mem, rfl⟩ := FoldedKeys.exists_of_value? (Check.ofValue_eq_ok.1 folded) found
  exact sound.entry h entry mem

section parts

variable (sound : Sound P good fine) {spec : FieldSpec} {v other : Value} {path : String}

include sound

theorem displays_within {items : List Value} (h : ∀ v ∈ items, good v) :
    Within (P ∘ .ofValue) (Value.displays items) := by
  induction items with
  | nil => exact within_ok _
  | cons v rest ih =>
    exact (sound.display (h v (by simp))).bind fun _ _ => (ih fun w mem => h w (by simp [mem])).map _

theorem anyShown_within {items : List Value} (h : ∀ v ∈ items, good v) (text : String) :
    Within (P ∘ .ofValue) (Operator.containsText.anyShown text items) := by
  induction items with
  | nil => exact within_ok _
  | cons v rest ih =>
    refine (sound.display (h v (by simp))).bind fun s _ => ?_
    split
    · exact within_pure _
    · exact ih fun w mem => h w (by simp [mem])

theorem containsText_within (h : good v) (text : String) : Within (P ∘ .ofValue) (Operator.containsText v text) := by
  have shown := (sound.display h).map fun s => Text.contains s text
  cases v with
  | scalar s => exact shown
  | mapping m => exact shown
  | sequence kind items => exact anyShown_within sound (sound.item h) text

theorem evaluateOrdering_within (h : good v) (o : Operator) (text : String) :
    Within (P ∘ .ofValue) (o.evaluateOrdering v text) := by
  refine (sound.number h).bind fun x _ => ?_
  repeat' split
  all_goals exact within_pure _

theorem evaluate_within (h : good v) (o : Operator) (text : String) :
    Within (P ∘ .ofValue) (o.evaluate v text) := by
  cases o with
  | contains => exact containsText_within sound h text
  | notContains => exact (containsText_within sound h text).map _
  | equals | notEquals => exact (sound.display h).map _
  | _ => exact evaluateOrdering_within sound h _ text

omit sound in
theorem verdict_within {α : Type} (equal less : α → α → Bool) (a b : α) {o : Operator}
    (comparison : o.isComparison = true) (Q : ComparisonFault → Prop) :
    Within Q (o.verdict (o.holds? equal less a b)) := by
  have decides := o.holds?_isSome equal less a b
  rw [comparison] at decides
  obtain ⟨verdict, found⟩ := Option.isSome_iff_exists.1 decides
  rw [found]
  exact within_ok _

theorem compare_within (h : good v) (h' : good other) {o : Operator} (comparison : o.isComparison = true) :
    Within P ((o.compare v other).mapError .comparison) := by
  have value {α : Type} {x : Except ValueFault α} (within : Within (P ∘ .ofValue) x) :
      Within (fun e => P (.comparison e)) (x.mapError .value) := within_mapError.2 within
  rw [within_mapError]
  refine (value (sound.number h)).bind fun x _ => (value (sound.number h')).bind fun y _ => ?_
  split
  · exact verdict_within _ _ _ _ comparison _
  · split
    · exact verdict_within _ _ _ _ comparison _
    · exact (value (sound.display h)).bind fun s _ => (value (sound.display h')).bind fun t _ =>
        verdict_within _ _ _ _ comparison _

theorem countFindings_within (declared : fine spec) {bound : Option Nat} (own : ∀ n, bound = some n → n ∈ spec.counts)
    (missed : Nat → Bool) (report : String → Finding) : Within P (countFindings bound missed report) := by
  refine within_mapM fun n mem => (within_ofValue.2 (sound.count declared (own n ?_))).map _
  simpa using List.mem_of_mem_filter mem

theorem stringFindings_within (declared : fine spec) {c : StringConstraints} (own : spec.stringConstraints = some c)
    (text : String) : Within P (c.findings path text) := by
  refine Within.bind ?_ fun _ _ => (countFindings_within sound declared ?_ _ _).bind fun _ _ =>
    (countFindings_within sound declared ?_ _ _).map _
  · unfold StringConstraints.patternFindings
    split
    · exact within_ok _
    · exact within_ok _
    · rename_i p _ pattern
      refine Within.bind ?_ fun _ _ => ?_
      · unfold patternMissing
        split
        · exact within_ok _
        · exact within_ok _
        · rename_i e other read
          rintro _ ⟨⟩
          exact sound.pattern declared (by simp [FieldSpec.pattern?, own, pattern]) read other
      · split <;> exact within_pure _
  · intro n bound
    simp [FieldSpec.counts, own, bound]
  · intro n bound
    simp [FieldSpec.counts, own, bound]

theorem numberFindings_within (declared : fine spec) {c : NumberConstraints} (own : spec.numberConstraints = some c)
    {n : Scalar} (h : good (.scalar n)) : Within P (c.findings path n) := by
  refine (within_ofValue.2 (sound.display h)).bind fun _ _ => Within.bind (within_mapM fun b mem => ?_) fun _ _ =>
    (within_mapM fun b mem => ?_).map _
  · refine (within_ofValue.2 (sound.bound declared ?_)).map _
    have bound := List.mem_of_mem_filter mem
    simp_all [FieldSpec.bounds]
  · refine (within_ofValue.2 (sound.bound declared ?_)).map _
    have bound := List.mem_of_mem_filter mem
    simp_all [FieldSpec.bounds]

theorem dateFindings_within (h : good v) (fits : PrimitiveKind.date.accepts v = true) (c : DateConstraints) :
    Within P (c.findings path v) := by
  unfold DateConstraints.findings
  split
  · exact within_ok _
  · rename_i t instant
    split
    · rename_i outside
      rintro _ ⟨⟩
      exact sound.day h fits instant outside
    · exact within_ok _

theorem arrayFindings_within (declared : fine spec) {c : ArrayConstraints} (own : spec.arrayConstraints = some c)
    {items : List Value} (h : ∀ v ∈ items, good v) : Within P (c.findings path items) := by
  refine (countFindings_within sound declared ?_ _ _).bind fun _ _ =>
    (countFindings_within sound declared ?_ _ _).bind fun _ _ => Within.map ?_ _
  · intro n bound
    simp [FieldSpec.counts, own, bound]
  · intro n bound
    simp [FieldSpec.counts, own, bound]
  · unfold ArrayConstraints.lackingFindings
    split
    · exact within_ok _
    · exact (within_ofValue.2 (displays_within sound h)).map _

theorem plainFindings_within (declared : fine spec) (h : good v)
    (fits : ∀ k, spec.type = .primitive k → k.accepts v = true) : Within P (plainFindings v spec path) := by
  unfold plainFindings
  split
  · cases own : spec.stringConstraints with
    | none => exact within_ok _
    | some c => exact stringFindings_within sound declared own _
  · cases own : spec.numberConstraints with
    | none => exact within_ok _
    | some c => exact numberFindings_within sound declared own h
  · rename_i type
    cases spec.dateConstraints with
    | none => exact within_ok _
    | some c => exact dateFindings_within sound h (fits .date type) c
  · cases own : spec.arrayConstraints with
    | none => exact within_ok _
    | some c => exact arrayFindings_within sound declared own (sound.item h)
  · exact within_ok _

theorem crossFindings_within (declared : fine spec) (h : good v) (keeps : Keeps good top) :
    Within P (crossFindings v spec path top) := by
  unfold crossFindings
  split
  · rename_i c own
    unfold CrossFieldConstraint.findings
    split
    · exact within_ok _
    · exact within_ok _
    · rename_i other _ found
      refine (compare_within sound h (keeps _ other found) (sound.compares declared c own)).bind fun _ _ => ?_
      split
      · exact within_pure _
      · exact (within_ofValue.2 (sound.display h)).map _
  · exact within_ok _

end parts

section walk

variable (sound : Sound P good fine)

include sound

theorem conditionsHold_within (keeps : Keeps good scope) (spec : FieldSpec) :
    Within P (conditionsHold spec scope) := by
  refine Within.bind (within_mapM fun c mem => ?_) fun _ _ => within_pure _
  cases found : scope.value? c.field with
  | none => exact within_ofValue.2 (evaluate_within sound sound.null _ _)
  | some v => exact within_ofValue.2 (evaluate_within sound (keeps _ v found) _ _)

theorem activeVariants_within (keeps : Keeps good scope) (g : FieldGroup) : Within P (activeVariants g scope) :=
  (within_filterM fun s _ => conditionsHold_within sound keeps s).map _

theorem groupFindingsIn_within (keeps : Keeps good scope) {g : FieldGroup} (declared : ∀ s ∈ g.variants, fine s)
    {place : String} {present : Option Value}
    (value : ∀ v, present = some v → ∀ active : FieldGroup, (∀ s ∈ active.variants, fine s) →
      Within P (r.valueFindings top active place v)) :
    Within P (r.groupFindingsIn top scope g place present) := by
  refine Within.bind (activeVariants_within sound keeps g) fun active found => ?_
  have fineActive : ∀ s ∈ active.variants, fine s := by
    obtain ⟨kept, filtered, found⟩ := Outcome.bind_eq_ok.1 found
    cases found
    rw [Outcome.filterM_eq_ok_iff] at filtered
    intro s mem
    rw [filtered.2] at mem
    exact declared s (List.mem_of_mem_filter mem)
  split
  · exact within_pure _
  · split
    · exact within_pure _
    · exact value _ rfl active fineActive

theorem strayKeys_within {m : Entries} (h : good (.mapping m)) (t : NamedType) (path : String) :
    Within P (strayKeys m t path) :=
  within_mapM fun e mem => (within_ofValue.2 (sound.key h e (List.mem_of_mem_filter mem))).map _

theorem undeclaredKeys_within {m : Entries} (h : good (.mapping m)) (s : Schema) :
    Within P (undeclaredKeys s m) :=
  (within_mapM fun e mem => within_ofValue.2 (sound.key h e (List.mem_of_mem_filter mem))).map _

omit sound in
theorem memberFindings_within {type : FieldType} {place : String} {v : Value}
    (object : ∀ t m, v = .mapping m → t ∈ r.types → Within P (r.objectFindings top t place m)) :
    Within P (r.memberFindings top type place v) := by
  unfold memberFindings
  split
  · rename_i m t resolved
    exact object t m rfl (mem_of_resolve? resolved)
  · exact within_ok _

end walk

mutual

theorem valueFindings_within (sound : Sound P good fine) (types : ∀ t ∈ r.types, ∀ f ∈ t.fields, fine f)
    (keeps : Keeps good top) (v : Value) (h : good v) {g : FieldGroup}
    (declared : ∀ s ∈ g.variants, fine s) (path : String) : Within P (r.valueFindings top g path v) := by
  rw [valueFindings_step]
  cases chosen : r.variant? v g.variants with
  | none => exact within_ok _
  | some spec =>
    have fineSpec : fine spec := declared spec (List.mem_of_find?_eq_some chosen)
    have fits : r.fits v spec.type = true := by simpa using List.find?_some chosen
    have plain : Within P (plainFindings v spec path) := by
      refine plainFindings_within sound fineSpec h fun k type => ?_
      rwa [type, fits_primitive] at fits
    have elements : Within P (r.arrayFindings top spec path v) := by
      unfold arrayFindings
      cases enter : elementsToEnter v spec with
      | none => exact within_ok _
      | some pair =>
        obtain ⟨e, items⟩ := pair
        obtain ⟨_, _, kind, same⟩ := elementsToEnter_eq_some_iff.1 enter
        have smaller : sizeOf items < sizeOf v := by
          rw [same, Value.sequence.sizeOf_spec]
          omega
        exact elementFindings_within sound types keeps items (sound.item (same ▸ h)) path 0
    have members : Within P (r.memberFindings top spec.type path v) := by
      cases v with
      | mapping m =>
        refine memberFindings_within fun t m' same mem => ?_
        cases same
        exact objectFindings_within sound types keeps m h mem path
      | _ => exact memberFindings_within fun t m same => by cases same
    exact plain.bind fun _ _ => elements.bind fun _ _ => members.bind fun _ _ =>
      (crossFindings_within sound fineSpec h keeps).bind fun _ _ => within_pure _
termination_by (sizeOf v, 1)

theorem elementFindings_within (sound : Sound P good fine) (types : ∀ t ∈ r.types, ∀ f ∈ t.fields, fine f)
    (keeps : Keeps good top) (items : List Value) (h : ∀ v ∈ items, good v)
    {type : FieldType} (path : String) (position : Nat) :
    Within P (r.elementFindings top type path position items) := by
  cases items with
  | nil =>
    rw [elementFindings_nil]
    exact within_ok _
  | cons v rest =>
    have member : Within P (r.memberFindings top type s!"{path}[{position}]" v) := by
      cases v with
      | mapping m =>
        refine memberFindings_within fun t m' same mem => ?_
        cases same
        exact objectFindings_within sound types keeps m (h _ (by simp)) mem _
      | _ => exact memberFindings_within fun t m same => by cases same
    rw [elementFindings_cons]
    refine Within.bind ?_ fun _ _ =>
      (elementFindings_within sound types keeps rest (fun v mem => h v (by simp [mem])) path
        (position + 1)).bind fun _ _ => within_pure _
    cases r.fits v type with
    | true => exact member
    | false => exact within_ok _
termination_by (sizeOf items, 0)

theorem objectFindings_within (sound : Sound P good fine) (types : ∀ t ∈ r.types, ∀ f ∈ t.fields, fine f)
    (keeps : Keeps good top) (m : Entries) (h : good (.mapping m))
    {t : NamedType} (declared : t ∈ r.types) (path : String) : Within P (r.objectFindings top t path m) := by
  rw [objectFindings_step]
  refine (strayKeys_within sound h t path).bind fun _ _ => (sound.folded h).bind fun keys folded =>
    Within.bind (within_mapM fun g group => ?_) fun _ _ => within_pure _
  have variants : ∀ s ∈ g.variants, fine s := fun s mem => types t declared s (FieldGroup.mem_fields group mem)
  refine groupFindingsIn_within sound (sound.keeps h folded) variants fun v present active fineActive => ?_
  have smaller := Entries.sizeOf_get?_lt present
  obtain ⟨entry, mem, rfl⟩ := Entries.exists_of_get? present
  exact valueFindings_within sound types keeps entry.2 (sound.entry h entry mem) fineActive _
termination_by (sizeOf m, 0)

end

theorem validate_within (sound : Sound P good fine) (types : ∀ t ∈ r.types, ∀ f ∈ t.fields, fine f) {s : Schema}
    (fields : ∀ f ∈ s.fields, fine f) {frontmatter : Option Entries} (h : good (.mapping (frontmatter.getD [])))
    (document : String) (checkUnknown : Bool) :
    Within P (r.validate document frontmatter s checkUnknown) := by
  refine Within.bind ((sound.folded h).bind fun top folded => Within.bind (within_mapM fun g group => ?_)
    fun _ _ => ?_) fun _ _ => within_pure _
  · have keeps := sound.keeps h folded
    have variants : ∀ s ∈ g.variants, fine s := fun s mem => fields s (FieldGroup.mem_fields group mem)
    rw [groupFindings_step]
    exact groupFindingsIn_within sound keeps variants fun v found active fineActive =>
      valueFindings_within sound types keeps v (keeps _ v found) fineActive _
  · split
    · exact (undeclaredKeys_within sound h s).bind fun _ _ => within_pure _
    · exact within_pure _

end Registry
end VaultSchema
