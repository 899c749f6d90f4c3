import VaultSchema.Schema.Validation
import VaultSchema.Proofs.Outcome

/-! The walk through a note's values, unfolded by one step. What it finds at a value comes from four
sources: the constraints on the value alone, the elements of an array, the members of a mapping of a
declared type, and the comparison with another field. -/

set_option autoImplicit false

namespace VaultSchema.Registry

/-- What is wrong with a group whose conditions are looked up in one mapping and whose value, if
there is one, stands there too. -/
def groupFindingsIn (r : Registry) (top scope : FoldedKeys) (g : FieldGroup) (place : String)
    (present : Option Value) : Check (List Finding) := do
  let active ← activeVariants g scope
  if active.variants.isEmpty then return []
  else
    match present with
    | none => return absenceFindings active place
    | some v => r.valueFindings top active place v

def arrayFindings (r : Registry) (top : FoldedKeys) (spec : FieldSpec) (path : String)
    (value : Value) : Check (List Finding) :=
  match elementsToEnter value spec with
  | some (e, items) => r.elementFindings top e path 0 items
  | none => .ok []

def memberFindings (r : Registry) (top : FoldedKeys) (type : FieldType) (path : String)
    (value : Value) : Check (List Finding) :=
  match value, r.resolve? type with
  | .mapping m, some t => r.objectFindings top t path m
  | _, _ => .ok []

variable (r : Registry) (top : FoldedKeys)

theorem elementsToEnter_eq_some_iff {v : Value} {spec : FieldSpec} {e : FieldType}
    {items : List Value} : elementsToEnter v spec = some (e, items) ↔
      spec.type = .primitive .array ∧ spec.elementType = some e ∧ ∃ kind, v = .sequence kind items := by
  unfold elementsToEnter
  split
  · rename_i kind xs f type elem
    simp only [type, elem, Option.some.injEq, Prod.mk.injEq, true_and, Value.sequence.injEq,
      exists_eq_left']
  · rename_i other
    simp only [reduceCtorEq, false_iff]
    rintro ⟨type, elem, kind, rfl⟩
    exact other kind items e type rfl elem

theorem groupFindings_step (g : FieldGroup) :
    r.groupFindings top g = r.groupFindingsIn top top g g.name (top.value? g.name) := rfl

theorem valueFindings_step (g : FieldGroup) (path : String) (value : Value) :
    r.valueFindings top g path value =
      match r.variant? value g.variants with
      | none => .ok [r.mismatch value g path]
      | some spec => do
        let own ← plainFindings value spec path
        let elements ← r.arrayFindings top spec path value
        let inner ← r.memberFindings top spec.type path value
        let cross ← crossFindings value spec path top
        return own ++ elements ++ inner ++ cross := by
  rw [valueFindings]
  cases r.variant? value g.variants with
  | none => rfl
  | some spec =>
    dsimp only
    cases plainFindings value spec path with
    | error e => rfl
    | ok own =>
      cases value with
      | scalar s => cases r.resolve? spec.type <;> simp [arrayFindings, memberFindings,
          elementsToEnter, bind, Except.bind, pure, Except.pure]
      | sequence kind items =>
        cases enter : elementsToEnter (.sequence kind items) spec with
        | none => simp [arrayFindings, memberFindings, enter, bind, Except.bind, pure, Except.pure]
        | some pair =>
          obtain ⟨e, entered⟩ := pair
          have same : entered = items := by
            obtain ⟨-, -, kind', same⟩ := elementsToEnter_eq_some_iff.1 enter
            exact (Value.sequence.inj same).2.symm
          subst same
          simp [arrayFindings, memberFindings, enter, bind, Except.bind, pure, Except.pure]
      | mapping m =>
        cases resolved : r.resolve? spec.type <;> simp [arrayFindings, memberFindings,
          elementsToEnter, resolved, bind, Except.bind, pure, Except.pure]

theorem valueFindings_flat {g : FieldGroup} {spec : FieldSpec} {kind : PrimitiveKind} (only : g.variants = [spec])
    (type : spec.type = .primitive kind) (elements : spec.elementType = none) {value : Value}
    (accepts : kind.accepts value = true) (path : String) :
    r.valueFindings top g path value = (do
      let own ← plainFindings value spec path
      let cross ← crossFindings value spec path top
      return own ++ cross) := by
  have chosen : r.variant? value g.variants = some spec := by
    rw [only]
    exact List.find?_cons_of_pos (by rw [type, fits_primitive, accepts])
  have array : r.arrayFindings top spec path value = .ok [] := by
    have none : elementsToEnter value spec = none := by
      unfold elementsToEnter
      rw [elements]
      split <;> simp_all
    rw [arrayFindings, none]
  have inner : r.memberFindings top spec.type path value = .ok [] := by
    rw [type]
    cases value <;> rfl
  rw [valueFindings_step]
  simp only [chosen, array, inner]
  cases plainFindings value spec path with
  | error e => rfl
  | ok own =>
    cases crossFindings value spec path top with
    | error e => rfl
    | ok cross => exact congrArg Except.ok (by simp)

theorem valueFindings_primitive {g : FieldGroup} {spec : FieldSpec} {kind : PrimitiveKind} (only : g.variants = [spec])
    (type : spec.type = .primitive kind) (elements : spec.elementType = none) (cross : spec.crossField = none)
    {value : Value} (accepts : kind.accepts value = true) (path : String) :
    r.valueFindings top g path value = plainFindings value spec path := by
  have other : crossFindings value spec path top = .ok [] := by rw [crossFindings, cross]
  rw [r.valueFindings_flat top only type elements accepts, other]
  cases plainFindings value spec path with
  | error e => rfl
  | ok own => exact congrArg Except.ok (List.append_nil own)

theorem elementFindings_nil (type : FieldType) (path : String) (position : Nat) :
    r.elementFindings top type path position [] = .ok [] := by rw [elementFindings]

theorem elementFindings_cons (type : FieldType) (path : String) (position : Nat) (v : Value)
    (rest : List Value) :
    r.elementFindings top type path position (v :: rest) = (do
      let own ← cond (r.fits v type) (r.memberFindings top type s!"{path}[{position}]" v)
        (.ok [r.elementMismatch v type s!"{path}[{position}]"])
      return own ++ (← r.elementFindings top type path (position + 1) rest)) := by
  conv => lhs; unfold elementFindings
  cases fits : r.fits v type with
  | false => rfl
  | true =>
    simp only [if_true, memberFindings]
    cases v with
    | mapping m => cases r.resolve? type <;> rfl
    | _ => rfl

theorem objectFindings_step (t : NamedType) (path : String) (m : Entries) :
    r.objectFindings top t path m = (do
      let stray ← strayKeys m t path
      let keys ← Check.ofValue (FoldedKeys.ofEntries m)
      let inner ← t.groups.mapM fun g =>
        r.groupFindingsIn top keys g s!"{path}.{g.name}" (Entries.get? g.name m)
      return stray ++ inner.flatten) := by
  rw [objectFindings]
  congr 1
  funext stray
  congr 1
  funext keys
  congr 1
  congr 1
  funext g
  unfold groupFindingsIn
  dsimp only
  congr 1
  funext active
  split
  · rfl
  · split <;> rename_i present <;> rw [present]

end VaultSchema.Registry
