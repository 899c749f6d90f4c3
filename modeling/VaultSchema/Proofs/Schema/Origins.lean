import VaultSchema.Proofs.Json.Number
import VaultSchema.Proofs.Schema.Constraint
import VaultSchema.Proofs.Schema.Findings

/-! Where a finding comes from. Whatever the walk through a value reports was found by one check at
one place of the value, so that a law of all findings is proved for each check alone. -/

set_option autoImplicit false

namespace VaultSchema

def ViolationKind.isShape : ViolationKind → Bool
  | .missingRequired | .missingWarned | .typeMismatch | .typeMismatchWarned => true
  | _ => false

def ViolationKind.isConstraint : ViolationKind → Bool
  | .patternMismatch | .stringTooShort | .stringTooLong | .numberTooSmall | .numberTooLarge | .dateTooEarly
  | .dateTooLate | .arrayTooFew | .arrayTooMany | .arrayMissingValue | .crossFieldViolation => true
  | _ => false

/-- A finding blames the value that stands at a place, for a constraint that it does not meet. -/
structure Finding.Constrains (path : String) (f : Finding) : Prop where
  place : f.field = path
  kind : f.kind.isConstraint = true

theorem Finding.Constrains.not_shape {path : String} {f : Finding} (h : f.Constrains path) :
    f.kind.isShape = false := by
  have kind := h.kind
  revert kind
  cases f.kind <;> decide

theorem Finding.Constrains.not_duplicate {path : String} {f : Finding} (h : f.Constrains path) :
    f.kind ≠ .duplicateValue := by
  intro same
  have kind := h.kind
  rw [same] at kind
  cases kind

section constrains

variable {path : String} {fs : List Finding}

theorem constrains_of_mapM {α : Type} {l : List α} {check : α → Check Finding} (found : l.mapM check = .ok fs)
    (each : ∀ a f, check a = .ok f → f.Constrains path) : ∀ f ∈ fs, f.Constrains path := by
  intro f mem
  obtain ⟨a, _, made⟩ := Outcome.exists_of_mem_mapM found mem
  exact each a f made

theorem constrains_countFindings {bound : Option Nat} {missed : Nat → Bool} {report : String → Finding}
    (found : countFindings bound missed report = .ok fs) (each : ∀ text, (report text).Constrains path) :
    ∀ f ∈ fs, f.Constrains path := by
  refine constrains_of_mapM found fun n f made => ?_
  obtain ⟨text, _, made⟩ := Outcome.bind_eq_ok.1 made
  cases made
  exact each text

theorem StringConstraints.constrains {c : StringConstraints} {text : String}
    (found : c.findings path text = .ok fs) : ∀ f ∈ fs, f.Constrains path := by
  obtain ⟨mismatch, looked, found⟩ := Outcome.bind_eq_ok.1 found
  obtain ⟨short, below, found⟩ := Outcome.bind_eq_ok.1 found
  obtain ⟨long, above, found⟩ := Outcome.bind_eq_ok.1 found
  cases found
  have pattern : ∀ f ∈ mismatch, f.Constrains path := by
    unfold patternFindings at looked
    split at looked
    · cases looked
      simp
    · cases looked
      simp
    · obtain ⟨missing, _, looked⟩ := Outcome.bind_eq_ok.1 looked
      split at looked <;> cases looked
      · simpa using ⟨rfl, rfl⟩
      · simp
  have lengths := And.intro (constrains_countFindings below fun _ => ⟨rfl, rfl⟩)
    (constrains_countFindings above fun _ => ⟨rfl, rfl⟩)
  simp only [List.forall_mem_append]
  exact ⟨⟨pattern, lengths.1⟩, lengths.2⟩

theorem NumberConstraints.constrains {c : NumberConstraints} {n : Scalar} (found : c.findings path n = .ok fs) :
    ∀ f ∈ fs, f.Constrains path := by
  obtain ⟨shown, _, found⟩ := Outcome.bind_eq_ok.1 found
  obtain ⟨small, below, found⟩ := Outcome.bind_eq_ok.1 found
  obtain ⟨large, above, found⟩ := Outcome.bind_eq_ok.1 found
  cases found
  rw [List.forall_mem_append]
  constructor
  · refine constrains_of_mapM below fun b f made => ?_
    obtain ⟨_, _, made⟩ := Outcome.bind_eq_ok.1 made
    cases made
    exact ⟨rfl, rfl⟩
  · refine constrains_of_mapM above fun b f made => ?_
    obtain ⟨_, _, made⟩ := Outcome.bind_eq_ok.1 made
    cases made
    exact ⟨rfl, rfl⟩

theorem DateConstraints.constrains {c : DateConstraints} {v : Value} (found : c.findings path v = .ok fs) :
    ∀ f ∈ fs, f.Constrains path := by
  unfold DateConstraints.findings at found
  split at found
  · cases found
    simp
  · split at found
    · cases found
    · cases found
      simp only [List.forall_mem_append, List.forall_mem_map]
      exact ⟨fun _ _ => ⟨rfl, rfl⟩, fun _ _ => ⟨rfl, rfl⟩⟩

theorem ArrayConstraints.constrains {c : ArrayConstraints} {items : List Value}
    (found : c.findings path items = .ok fs) : ∀ f ∈ fs, f.Constrains path := by
  obtain ⟨few, below, found⟩ := Outcome.bind_eq_ok.1 found
  obtain ⟨many, above, found⟩ := Outcome.bind_eq_ok.1 found
  obtain ⟨lacking, looked, found⟩ := Outcome.bind_eq_ok.1 found
  cases found
  have members : ∀ f ∈ lacking, f.Constrains path := by
    unfold lackingFindings at looked
    split at looked
    · cases looked
      simp
    · obtain ⟨_, _, looked⟩ := Outcome.bind_eq_ok.1 looked
      cases looked
      rw [List.forall_mem_map]
      exact fun _ _ => ⟨rfl, rfl⟩
  have counts := And.intro (constrains_countFindings below fun _ => ⟨rfl, rfl⟩)
    (constrains_countFindings above fun _ => ⟨rfl, rfl⟩)
  simp only [List.forall_mem_append]
  exact ⟨counts, members⟩

namespace Registry

variable {v : Value} {spec : FieldSpec}

theorem constrains_plainFindings (found : plainFindings v spec path = .ok fs) :
    ∀ f ∈ fs, f.Constrains path := by
  have step : ∀ {γ : Type} {c : Option γ} {check : γ → Check (List Finding)},
      (∀ c fs, check c = .ok fs → ∀ f ∈ fs, f.Constrains path) →
      (c.map check).getD (.ok []) = .ok fs → ∀ f ∈ fs, f.Constrains path := by
    intro γ c check each found
    cases c with
    | none =>
      cases found
      simp
    | some k => exact each k fs found
  unfold plainFindings at found
  split at found
  · exact step (fun _ _ => StringConstraints.constrains) found
  · exact step (fun _ _ => NumberConstraints.constrains) found
  · exact step (fun _ _ => DateConstraints.constrains) found
  · exact step (fun _ _ => ArrayConstraints.constrains) found
  · cases found
    simp

theorem constrains_crossFindings {top : FoldedKeys} (found : crossFindings v spec path top = .ok fs) :
    ∀ f ∈ fs, f.Constrains path := by
  unfold crossFindings CrossFieldConstraint.findings at found
  split at found
  · split at found
    · cases found
      simp
    · cases found
      simp
    · obtain ⟨holds, _, found⟩ := Outcome.bind_eq_ok.1 found
      split at found
      · cases found
        simp
      · obtain ⟨_, _, found⟩ := Outcome.bind_eq_ok.1 found
        cases found
        simpa using ⟨rfl, rfl⟩
  · cases found
    simp

end Registry

end constrains

namespace Registry

/-- A place of the walk: the value of a group's active variants, a member of an array, or a mapping taken
for a declared type. -/
inductive Stop where
  | value (g : FieldGroup) (path : String) (v : Value)
  | element (type : FieldType) (path : String) (v : Value)
  | object (t : NamedType) (path : String) (m : Entries)

def Stop.path : Stop → String
  | value _ path _ | element _ path _ | object _ path _ => path

def Stop.entered : Stop → Bool
  | object _ _ _ => true
  | _ => false

/-- A check makes a finding at a place or further inside. -/
inductive Arises (r : Registry) (top : FoldedKeys) : Stop → Finding → Prop where
  | mismatch {g : FieldGroup} {path : String} {v : Value} (unfit : r.variant? v g.variants = none) :
      Arises r top (.value g path v) (r.mismatch v g path)
  | plain {g : FieldGroup} {path : String} {v : Value} {spec : FieldSpec} {fs : List Finding} {f : Finding}
      (chosen : r.variant? v g.variants = some spec) (found : plainFindings v spec path = .ok fs) (mem : f ∈ fs) :
      Arises r top (.value g path v) f
  | cross {g : FieldGroup} {path : String} {v : Value} {spec : FieldSpec} {fs : List Finding} {f : Finding}
      (chosen : r.variant? v g.variants = some spec) (found : crossFindings v spec path top = .ok fs)
      (mem : f ∈ fs) : Arises r top (.value g path v) f
  | element {g : FieldGroup} {path : String} {v : Value} {spec : FieldSpec} {type : FieldType}
      {items : List Value} {i : Nat} {x : Value} {f : Finding} (chosen : r.variant? v g.variants = some spec)
      (enter : elementsToEnter v spec = some (type, items)) (there : items[i]? = some x)
      (inner : Arises r top (.element type s!"{path}[{i}]" x) f) : Arises r top (.value g path v) f
  | inside {g : FieldGroup} {path : String} {m : Entries} {spec : FieldSpec} {t : NamedType} {f : Finding}
      (chosen : r.variant? (.mapping m) g.variants = some spec) (declared : r.resolve? spec.type = some t)
      (inner : Arises r top (.object t path m) f) : Arises r top (.value g path (.mapping m)) f
  | unfit {type : FieldType} {path : String} {v : Value} (unfit : r.fits v type = false) :
      Arises r top (.element type path v) (r.elementMismatch v type path)
  | entered {type : FieldType} {path : String} {m : Entries} {t : NamedType} {f : Finding}
      (fits : r.fits (.mapping m) type = true) (declared : r.resolve? type = some t)
      (inner : Arises r top (.object t path m) f) : Arises r top (.element type path (.mapping m)) f
  | stray {t : NamedType} {path : String} {m : Entries} {fs : List Finding} {f : Finding}
      (found : strayKeys m t path = .ok fs) (mem : f ∈ fs) : Arises r top (.object t path m) f
  | absent {t : NamedType} {path : String} {m : Entries} {g active : FieldGroup} {scope : FoldedKeys} {f : Finding}
      (group : g ∈ t.groups) (keys : FoldedKeys.ofEntries m = .ok scope) (kept : activeVariants g scope = .ok active)
      (absent : Entries.get? g.name m = none) (mem : f ∈ absenceFindings active s!"{path}.{g.name}") :
      Arises r top (.object t path m) f
  | member {t : NamedType} {path : String} {m : Entries} {g active : FieldGroup} {scope : FoldedKeys} {v : Value}
      {f : Finding} (group : g ∈ t.groups) (keys : FoldedKeys.ofEntries m = .ok scope)
      (kept : activeVariants g scope = .ok active) (present : Entries.get? g.name m = some v)
      (inner : Arises r top (.value active s!"{path}.{g.name}" v) f) : Arises r top (.object t path m) f

variable {r : Registry} {top : FoldedKeys}

theorem exists_of_mem_memberFindings {type : FieldType} {path : String} {v : Value} {fs : List Finding}
    (found : r.memberFindings top type path v = .ok fs) {f : Finding} (mem : f ∈ fs) :
    ∃ m t, v = .mapping m ∧ r.resolve? type = some t ∧ r.objectFindings top t path m = .ok fs := by
  unfold memberFindings at found
  split at found
  · rename_i m t declared
    exact ⟨m, t, rfl, declared, found⟩
  · cases found
    cases mem

theorem exists_of_mem_groupFindingsIn {scope : FoldedKeys} {g : FieldGroup} {place : String}
    {present : Option Value} {fs : List Finding} (found : r.groupFindingsIn top scope g place present = .ok fs)
    {f : Finding} (mem : f ∈ fs) : ∃ active, activeVariants g scope = .ok active ∧
      (present = none ∧ f ∈ absenceFindings active place ∨
        ∃ v, present = some v ∧ r.valueFindings top active place v = .ok fs) := by
  obtain ⟨active, kept, found⟩ := Outcome.bind_eq_ok.1 found
  refine ⟨active, kept, ?_⟩
  split at found
  · cases found
    cases mem
  · cases present with
    | none =>
      cases found
      exact .inl ⟨rfl, mem⟩
    | some v => exact .inr ⟨v, rfl, found⟩

mutual

theorem arises_value (v : Value) {g : FieldGroup} {path : String} {fs : List Finding}
    (found : r.valueFindings top g path v = .ok fs) : ∀ f ∈ fs, Arises r top (.value g path v) f := by
  rw [valueFindings_step] at found
  split at found
  · rename_i unfit
    cases found
    intro f mem
    rw [List.mem_singleton.1 mem]
    exact .mismatch unfit
  · rename_i spec chosen
    obtain ⟨own, plain, found⟩ := Outcome.bind_eq_ok.1 found
    obtain ⟨elements, walked, found⟩ := Outcome.bind_eq_ok.1 found
    obtain ⟨inner, entered, found⟩ := Outcome.bind_eq_ok.1 found
    obtain ⟨cross, compared, found⟩ := Outcome.bind_eq_ok.1 found
    cases found
    intro f mem
    simp only [List.mem_append] at mem
    rcases mem with ((mem | mem) | mem) | mem
    · exact .plain chosen plain mem
    · unfold arrayFindings at walked
      split at walked
      · rename_i e items enter
        have smaller : sizeOf items < sizeOf v := by
          obtain ⟨_, _, kind, same⟩ := elementsToEnter_eq_some_iff.1 enter
          rw [same, Value.sequence.sizeOf_spec]
          omega
        obtain ⟨i, x, there, arises⟩ := arises_elements items walked f mem
        rw [Nat.zero_add] at arises
        exact .element chosen enter there arises
      · cases walked
        cases mem
    · obtain ⟨m, t, same, declared, object⟩ := exists_of_mem_memberFindings entered mem
      subst same
      exact .inside chosen declared (arises_object m object f mem)
    · exact .cross chosen compared mem
termination_by (sizeOf v, 1)

theorem arises_elements (items : List Value) {type : FieldType} {path : String} {position : Nat}
    {fs : List Finding} (found : r.elementFindings top type path position items = .ok fs) :
    ∀ f ∈ fs, ∃ i x, items[i]? = some x ∧ Arises r top (.element type s!"{path}[{position + i}]" x) f := by
  cases items with
  | nil =>
    rw [elementFindings_nil] at found
    cases found
    simp
  | cons v rest =>
    rw [elementFindings_cons] at found
    obtain ⟨own, first, found⟩ := Outcome.bind_eq_ok.1 found
    obtain ⟨others, behind, found⟩ := Outcome.bind_eq_ok.1 found
    cases found
    intro f mem
    rcases List.mem_append.1 mem with mem | mem
    · refine ⟨0, v, rfl, ?_⟩
      cases fits : r.fits v type with
      | false =>
        rw [fits] at first
        cases first
        rw [List.mem_singleton.1 mem]
        exact .unfit fits
      | true =>
        rw [fits, cond_true] at first
        obtain ⟨m, t, same, declared, object⟩ := exists_of_mem_memberFindings first mem
        subst same
        exact .entered fits declared (arises_object m object f mem)
    · obtain ⟨i, x, there, arises⟩ := arises_elements rest behind f mem
      refine ⟨i + 1, x, there, ?_⟩
      rwa [Nat.add_assoc, Nat.add_comm 1 i] at arises
termination_by (sizeOf items, 0)

theorem arises_object (m : Entries) {t : NamedType} {path : String} {fs : List Finding}
    (found : r.objectFindings top t path m = .ok fs) : ∀ f ∈ fs, Arises r top (.object t path m) f := by
  rw [objectFindings_step] at found
  obtain ⟨stray, strays, found⟩ := Outcome.bind_eq_ok.1 found
  obtain ⟨scope, keys, found⟩ := Outcome.bind_eq_ok.1 found
  obtain ⟨inner, groups, found⟩ := Outcome.bind_eq_ok.1 found
  cases found
  have keys := Check.ofValue_eq_ok.1 keys
  intro f mem
  rcases List.mem_append.1 mem with mem | mem
  · exact .stray strays mem
  · obtain ⟨own, inside, mem⟩ := List.mem_flatten.1 mem
    obtain ⟨g, group, own⟩ := Outcome.exists_of_mem_mapM groups inside
    obtain ⟨active, kept, ⟨absent, mem⟩ | ⟨v, present, own⟩⟩ := exists_of_mem_groupFindingsIn own mem
    · exact .absent group keys kept absent mem
    · have smaller := Entries.sizeOf_get?_lt present
      exact .member group keys kept present (arises_value v own f mem)
termination_by (sizeOf m, 0)

end

theorem place_append (path key rest : String) : s!"{path}.{key}" ++ rest = path ++ ("." ++ key ++ rest) := by
  simp [String.append_assoc, toString]

theorem index_append (path : String) (i : Nat) (rest : String) :
    s!"{path}[{i}]" ++ rest = path ++ ("[" ++ toString i ++ "]" ++ rest) := by
  simp [String.append_assoc, toString]

theorem ne_of_append {path rest : String} (more : rest ≠ "") : path ++ rest ≠ path := by
  intro same
  have lengths := congrArg String.length same
  rw [String.length_append] at lengths
  exact more (String.length_eq_zero_iff.1 (by omega))

/-- Members of one array stand at different places, none of which is inside another. -/
theorem index_inj {path rest : String} {i j : Nat} (same : s!"{path}[{i}]" ++ rest = s!"{path}[{j}]") : i = j := by
  have front (n : Nat) (rest : List Char) :
      ((toString n).toList ++ ']' :: rest).takeWhile Decimal.isDigit = (toString n).toList := by
    rw [List.takeWhile_append_of_pos fun c mem => Decimal.isDigit_of_mem_toString mem]
    simp [Decimal.isDigit]
  have digits : (toString i).toList ++ ']' :: rest.toList = (toString j).toList ++ [']'] := by
    have lists := congrArg String.toList same
    simpa [toString] using lists
  have fronts := congrArg (List.takeWhile Decimal.isDigit) digits
  rw [front, front] at fronts
  rw [← Decimal.ofDigits_toString i, fronts, Decimal.ofDigits_toString]

/-- A finding lies at or below the place of the walk, and below it once a mapping has been entered. -/
theorem Arises.lies {stop : Stop} {f : Finding} (h : Arises r top stop f) :
    ∃ rest, f.field = stop.path ++ rest ∧ (stop.entered = true → rest ≠ "") := by
  have here {path : String} {v : Value} {g : FieldGroup} {f : Finding} (own : f.field = path) :
      ∃ rest, f.field = (Stop.value g path v).path ++ rest ∧ ((Stop.value g path v).entered = true → rest ≠ "") :=
    ⟨"", by simp [own, Stop.path], by simp [Stop.entered]⟩
  induction h with
  | mismatch _ => exact here rfl
  | plain _ found mem => exact here (constrains_plainFindings found _ mem).place
  | cross _ found mem => exact here (constrains_crossFindings found _ mem).place
  | element _ _ _ _ ih =>
    obtain ⟨rest, field, _⟩ := ih
    exact ⟨_, field.trans (index_append ..), by simp [Stop.entered]⟩
  | inside _ _ _ ih =>
    obtain ⟨rest, field, _⟩ := ih
    exact ⟨rest, field, by simp [Stop.entered]⟩
  | unfit _ => exact ⟨"", by simp [Stop.path, elementMismatch], by simp [Stop.entered]⟩
  | entered _ _ _ ih =>
    obtain ⟨rest, field, _⟩ := ih
    exact ⟨rest, field, by simp [Stop.entered]⟩
  | stray found mem =>
    obtain ⟨e, _, made⟩ := Outcome.exists_of_mem_mapM found mem
    obtain ⟨key, _, made⟩ := Outcome.bind_eq_ok.1 made
    cases made
    exact ⟨"." ++ key, by simp [Stop.path, String.append_assoc, toString], fun _ => by simp⟩
  | @absent t path m g active scope f _ _ _ _ mem =>
    have place : f.field = s!"{path}.{g.name}" := by
      unfold absenceFindings at mem
      split at mem
      · rw [List.mem_singleton.1 mem]
      · split at mem
        · rw [List.mem_singleton.1 mem]
        · cases mem
    exact ⟨"." ++ g.name, by simp [Stop.path, place, String.append_assoc, toString], fun _ => by simp⟩
  | member _ _ _ _ _ ih =>
    obtain ⟨rest, field, _⟩ := ih
    exact ⟨_, field.trans (place_append ..), fun _ => by simp⟩

/-- What blames the presence or the type of a value at its own place is the mismatch with its group. -/
theorem Arises.unfit_value {g : FieldGroup} {path : String} {v : Value} {f : Finding}
    (h : Arises r top (.value g path v) f) (here : f.field = path) (shape : f.kind.isShape = true) :
    r.variant? v g.variants = none := by
  cases h with
  | mismatch unfit => exact unfit
  | plain _ found mem => simp [(constrains_plainFindings found _ mem).not_shape] at shape
  | cross _ found mem => simp [(constrains_crossFindings found _ mem).not_shape] at shape
  | element _ _ _ inner =>
    obtain ⟨rest, field, _⟩ := inner.lies
    rw [Stop.path, index_append] at field
    exact absurd (field.symm.trans here) (ne_of_append (by simp))
  | inside _ _ inner =>
    obtain ⟨rest, field, more⟩ := inner.lies
    exact absurd (field.symm.trans here) (ne_of_append (more rfl))

theorem Arises.unfit_element {g : FieldGroup} {path : String} {v : Value} {spec : FieldSpec} {type : FieldType}
    {items : List Value} {i : Nat} {x : Value} {f : Finding} (h : Arises r top (.value g path v) f)
    (chosen : r.variant? v g.variants = some spec) (enter : elementsToEnter v spec = some (type, items))
    (there : items[i]? = some x) (here : f.field = s!"{path}[{i}]") : r.fits x type = false := by
  have apart : f.field ≠ path := by
    have further := index_append path i ""
    rw [String.append_empty] at further
    rw [here, further]
    exact ne_of_append (by simp)
  cases h with
  | mismatch unfit => exact absurd rfl apart
  | plain _ found mem => exact absurd (constrains_plainFindings found _ mem).place apart
  | cross _ found mem => exact absurd (constrains_crossFindings found _ mem).place apart
  | element chosen' enter' there' inner =>
    obtain rfl := Option.some.inj (chosen.symm.trans chosen')
    obtain ⟨rfl, rfl⟩ := Prod.mk.inj (Option.some.inj (enter.symm.trans enter'))
    obtain ⟨rest, field, _⟩ := inner.lies
    obtain rfl := index_inj (field.symm.trans here)
    obtain rfl := Option.some.inj (there.symm.trans there')
    cases inner with
    | unfit unfit => exact unfit
    | entered _ _ inner =>
      obtain ⟨rest, field, more⟩ := inner.lies
      exact absurd (field.symm.trans here) (ne_of_append (more rfl))
  | inside _ _ _ =>
    obtain ⟨_, _, _, same⟩ := elementsToEnter_eq_some_iff.1 enter
    cases same

end Registry
end VaultSchema
