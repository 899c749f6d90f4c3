import Mathlib.Data.List.Nodup
import VaultSchema.Proofs.Schema.Faults

/-! What loading guarantees. A definitions file gives a set of schemas exactly when it is well
formed, and then validation finds every type that it meets and compares fields by comparison
operators alone. -/

set_option autoImplicit false

namespace VaultSchema

/-- All types that a declaration refers to have one of some names. -/
def FieldSpec.RefersTo (names : List String) (f : FieldSpec) : Prop := ∀ n, .named n ∈ f.types → n ∈ names

theorem Registry.has_iff {r : Registry} {n : String} : r.has n = true ↔ n ∈ r.types.map (·.name) := by
  simp [has, find?]

namespace Definitions

def typeNames (d : Definitions) : List String := d.types.map (·.name)

def fields (d : Definitions) : List FieldSpec := d.types.flatMap (·.fields) ++ d.schemas.flatMap (·.fields)

structure WellFormed (d : Definitions) : Prop where
  types : d.typeNames.Nodup
  schemas : (d.schemas.map (·.id)).Nodup
  references : ∀ f ∈ d.fields, f.RefersTo d.typeNames
  comparisons : ∀ f ∈ d.fields, f.Compares

theorem checkComparisons_eq_ok_iff {place : DefinitionPlace} {fields : List FieldSpec} :
    checkComparisons place fields = .ok () ↔ ∀ f ∈ fields, f.Compares := by
  rw [checkComparisons, Outcome.forM_eq_ok_iff]
  refine forall₂_congr fun f _ => ?_
  unfold FieldSpec.Compares
  cases f.crossField with
  | none => simp
  | some c => cases comparison : c.operator.isComparison <;> simp [comparison]

theorem checkReferences_eq_ok_iff {r : Registry} {place : DefinitionPlace} {fields : List FieldSpec} :
    checkReferences r place fields = .ok () ↔ ∀ f ∈ fields, f.RefersTo (r.types.map (·.name)) := by
  have all : r.undefined? fields = none ↔ ∀ f ∈ fields, f.RefersTo (r.types.map (·.name)) := by
    simp only [Registry.undefined?, List.findSome?_eq_none_iff]
    refine forall₂_congr fun f _ => ?_
    simp only [List.mem_filterMap, forall_exists_index, and_imp, ite_eq_left_iff, reduceCtorEq, imp_false,
      Registry.has_iff, not_not]
    constructor
    · exact fun h n mem => h n (.named n) mem rfl
    · intro h n type mem refers
      cases type with
      | primitive k => cases refers
      | named n' =>
        cases refers
        exact h n mem
  rw [← all, checkReferences]
  cases r.undefined? fields <;> simp

theorem register_eq_ok_iff {r q : Registry} {types : List NamedType} (distinct : (r.types.map (·.name)).Nodup) :
    register r types = .ok q ↔ q = ⟨r.types ++ types⟩ ∧ (∀ t ∈ types, ∀ f ∈ t.fields, f.Compares) ∧
      (r.types.map (·.name) ++ types.map (·.name)).Nodup := by
  induction types generalizing r with
  | nil => simp [register, distinct, eq_comm]
  | cons t rest ih =>
    rw [register, Outcome.seq_eq_ok, checkComparisons_eq_ok_iff, List.map_cons, List.nodup_middle, List.nodup_cons]
    by_cases old : r.has t.name = true
    · have there := Registry.has_iff.1 old
      rw [if_pos old]
      refine iff_of_false (by simp) ?_
      rintro ⟨_, _, fresh, _⟩
      exact fresh (List.mem_append_left _ there)
    · have fresh := mt Registry.has_iff.2 old
      have more : ((r.types ++ [t]).map (·.name)).Nodup := by
        rw [List.map_append, List.nodup_append_comm]
        exact List.nodup_cons.2 ⟨fresh, distinct⟩
      rw [if_neg old, ih more, List.forall_mem_cons, List.map_append, List.append_assoc, List.append_assoc,
        List.map_singleton, List.singleton_append, List.singleton_append, List.nodup_middle, List.nodup_cons]
      tauto

theorem checkSchemas_eq_ok_iff {r : Registry} {seen : List String} {schemas checked : List Schema}
    (distinct : seen.Nodup) :
    checkSchemas r seen schemas = .ok checked ↔ checked = schemas.map named ∧
      (∀ s ∈ schemas, ∀ f ∈ s.fields, f.Compares ∧ f.RefersTo (r.types.map (·.name))) ∧
      (seen ++ schemas.map (·.id)).Nodup := by
  induction schemas generalizing seen checked with
  | nil => simp [checkSchemas, distinct, eq_comm]
  | cons s rest ih =>
    rw [checkSchemas, List.map_cons, List.map_cons, List.nodup_middle]
    by_cases old : seen.contains s.id = true
    · have there : s.id ∈ seen := by simpa using old
      rw [if_pos old]
      refine iff_of_false (by simp) ?_
      rintro ⟨_, _, nodup⟩
      exact (List.nodup_cons.1 nodup).1 (List.mem_append_left _ there)
    · have fresh : s.id ∉ seen := by simpa using old
      rw [if_neg old, Outcome.seq_eq_ok, Outcome.seq_eq_ok, Outcome.bind_eq_ok, checkComparisons_eq_ok_iff,
        checkReferences_eq_ok_iff, List.forall_mem_cons, ← List.cons_append, forall₂_and]
      simp only [ih (List.nodup_cons.2 ⟨fresh, distinct⟩)]
      constructor
      · rintro ⟨compares, refers, _, ⟨rfl, others, nodup⟩, same⟩
        cases same
        exact ⟨rfl, ⟨⟨compares, refers⟩, others⟩, nodup⟩
      · rintro ⟨rfl, ⟨⟨compares, refers⟩, others⟩, nodup⟩
        exact ⟨compares, refers, _, ⟨rfl, others, nodup⟩, rfl⟩

section wellFormed

variable {d : Definitions} {f : FieldSpec}

theorem mem_fields_of_type {t : NamedType} (type : t ∈ d.types) (mem : f ∈ t.fields) : f ∈ d.fields :=
  List.mem_append_left _ (List.mem_flatMap.2 ⟨t, type, mem⟩)

theorem mem_fields_of_schema {s : Schema} (schema : s ∈ d.schemas) (mem : f ∈ s.fields) : f ∈ d.fields :=
  List.mem_append_right _ (List.mem_flatMap.2 ⟨s, schema, mem⟩)

theorem WellFormed.of_type (wf : d.WellFormed) {t : NamedType} (type : t ∈ d.types) (mem : f ∈ t.fields) :
    f.RefersTo d.typeNames ∧ f.Compares :=
  have mem := mem_fields_of_type type mem
  ⟨wf.references f mem, wf.comparisons f mem⟩

theorem WellFormed.of_schema (wf : d.WellFormed) {s : Schema} (schema : s ∈ d.schemas) (mem : f ∈ s.fields) :
    f.RefersTo d.typeNames ∧ f.Compares :=
  have mem := mem_fields_of_schema schema mem
  ⟨wf.references f mem, wf.comparisons f mem⟩

theorem WellFormed.of_parts (types : d.typeNames.Nodup) (schemas : (d.schemas.map (·.id)).Nodup)
    (ofType : ∀ t ∈ d.types, ∀ f ∈ t.fields, f.RefersTo d.typeNames ∧ f.Compares)
    (ofSchema : ∀ s ∈ d.schemas, ∀ f ∈ s.fields, f.RefersTo d.typeNames ∧ f.Compares) : d.WellFormed := by
  have all : ∀ f ∈ d.fields, f.RefersTo d.typeNames ∧ f.Compares := by
    intro f mem
    rcases List.mem_append.1 mem with mem | mem <;> obtain ⟨owner, inside, mem⟩ := List.mem_flatMap.1 mem
    · exact ofType owner inside f mem
    · exact ofSchema owner inside f mem
  exact ⟨types, schemas, fun f mem => (all f mem).1, fun f mem => (all f mem).2⟩

end wellFormed

/-- Checking makes a set of exactly the well-formed definitions. -/
theorem check_eq_ok_iff {d : Definitions} {set : SchemaSet} :
    d.check = .ok set ↔ d.WellFormed ∧ set = ⟨d.schemas.map named, ⟨d.types⟩⟩ := by
  have registered : ∀ r, register {} d.types = .ok r ↔ r = ⟨d.types⟩ ∧ (∀ t ∈ d.types, ∀ f ∈ t.fields, f.Compares) ∧
      d.typeNames.Nodup := fun r => by
    rw [register_eq_ok_iff (by simp)]
    simp [typeNames]
  have referring : ∀ r : Registry, (r.types.forM fun t => checkReferences r (.type t.name) t.fields) = .ok () ↔
      ∀ t ∈ r.types, ∀ f ∈ t.fields, f.RefersTo (r.types.map (·.name)) := fun r => by
    simp only [Outcome.forM_eq_ok_iff, checkReferences_eq_ok_iff]
  rw [check, Outcome.bind_eq_ok]
  constructor
  · rintro ⟨r, first, then_⟩
    obtain ⟨rfl, compares, types⟩ := (registered r).1 first
    obtain ⟨refers, then_⟩ := Outcome.seq_eq_ok.1 then_
    obtain ⟨checked, last, same⟩ := Outcome.bind_eq_ok.1 then_
    obtain ⟨rfl, schemas, ids⟩ := (checkSchemas_eq_ok_iff List.nodup_nil).1 last
    rw [referring] at refers
    cases same
    refine ⟨.of_parts types ids ?_ fun s schema f mem => (schemas s schema f mem).symm, rfl⟩
    exact fun t type f mem => ⟨refers t type f mem, compares t type f mem⟩
  · rintro ⟨wf, rfl⟩
    have compares : ∀ t ∈ d.types, ∀ f ∈ t.fields, f.Compares := fun t type f mem => (wf.of_type type mem).2
    have refers : ∀ t ∈ d.types, ∀ f ∈ t.fields, f.RefersTo d.typeNames := fun t type f mem => (wf.of_type type mem).1
    refine ⟨⟨d.types⟩, (registered _).2 ⟨rfl, compares, wf.types⟩, Outcome.seq_eq_ok.2 ⟨(referring _).2 refers, ?_⟩⟩
    refine Outcome.bind_eq_ok.2 ⟨_, (checkSchemas_eq_ok_iff List.nodup_nil).2 ⟨rfl, ?_, wf.schemas⟩, rfl⟩
    exact fun s schema f mem => (wf.of_schema schema mem).symm

variable {d : Definitions} {s : Schema}

theorem WellFormed.declares (wf : d.WellFormed) (schema : s ∈ d.schemas.map named) {n : String}
    (reaches : (⟨d.types⟩ : Registry).Reaches (FieldSpec.mentioned s.fields) (.named n)) :
    ∃ t, (⟨d.types⟩ : Registry).find? n = some t := by
  obtain ⟨s, written, rfl⟩ := List.mem_map.1 schema
  have mentioned : n ∈ d.typeNames := by
    cases reaches with
    | mentioned mem =>
      obtain ⟨f, own, refers⟩ := List.mem_flatMap.1 mem
      exact (wf.of_schema written own).1 n refers
    | through _ declared mem =>
      obtain ⟨f, own, refers⟩ := List.mem_flatMap.1 mem
      exact (wf.of_type (Registry.mem_of_resolve? declared) own).1 n refers
  exact Option.isSome_iff_exists.1 (Registry.has_iff.2 mentioned)

/-- No operator but those that definitions may not use faults as being no comparison. -/
theorem comparing_sound : Registry.Sound (fun f => ∀ o, f ≠ .comparison (.notComparison o)) (fun _ => True)
    FieldSpec.Compares where
  null := trivial
  item _ _ _ := trivial
  entry _ _ _ := trivial
  key _ _ _ _ _ _ := nofun
  number _ _ _ _ := nofun
  display _ _ _ _ := nofun
  day _ _ _ _ _ := nofun
  compares h := h
  pattern _ _ _ _ _ := nofun
  count _ _ _ _ _ := nofun
  bound _ _ _ _ _ := nofun

/-- Checking succeeds exactly on well-formed definitions. In the set that it makes every name that a
schema reaches is declared, what a registry says of other names makes no difference to validation, and
no two fields are compared by an operator that is no comparison. -/
theorem check_guarantees (d : Definitions) :
    ((∃ set, d.check = .ok set) ↔ d.WellFormed) ∧ (¬d.WellFormed → ∃ fault, d.check = .error fault) ∧
      ∀ set, d.check = .ok set → ∀ s ∈ set.schemas,
        (∀ n, set.registry.Reaches (FieldSpec.mentioned s.fields) (.named n) → ∃ t, set.registry.find? n = some t) ∧
        ∀ document frontmatter checkUnknown,
          (∀ q : Registry, (∀ n, set.registry.has n → q.find? n = set.registry.find? n) →
            q.validate document frontmatter s checkUnknown =
              set.registry.validate document frontmatter s checkUnknown) ∧
          ∀ o, set.registry.validate document frontmatter s checkUnknown ≠ .error (.comparison (.notComparison o)) := by
  have succeeds : (∃ set, d.check = .ok set) ↔ d.WellFormed := by simp [check_eq_ok_iff]
  refine ⟨succeeds, ?_, ?_⟩
  · intro ill
    cases checked : d.check with
    | ok set => exact (ill (succeeds.1 ⟨set, checked⟩)).elim
    | error fault => exact ⟨fault, rfl⟩
  · intro set checked s schema
    obtain ⟨wf, rfl⟩ := check_eq_ok_iff.1 checked
    refine ⟨fun n => wf.declares schema, fun document frontmatter checkUnknown => ⟨?_, ?_⟩⟩
    · intro q same
      refine Registry.validate_congr (fun type reaches => ?_) document frontmatter checkUnknown
      cases type with
      | primitive k => rfl
      | named n => exact same n (Option.isSome_iff_exists.2 (wf.declares schema reaches))
    · intro o faults
      refine Registry.validate_within comparing_sound ?_ ?_ trivial document checkUnknown _ faults o rfl
      · exact fun t type f mem => (wf.of_type type mem).2
      · obtain ⟨s, written, rfl⟩ := List.mem_map.1 schema
        exact fun f mem => (wf.of_schema written mem).2

/-- Persons have addresses, and addresses have residents. -/
def circle : Definitions where
  types := [
    ⟨"person", [{ name := "name", type := .primitive .string, required := true },
      { name := "address", type := .named "address" }]⟩,
    ⟨"address", [{ name := "street", type := .primitive .string },
      { name := "residents", type := .primitive .array, elementType := some (.named "person") }]⟩]
  schemas := [{
    id := "loans", query := "#loan"
    fields := [{ name := "reader", type := .named "person" },
      { name := "back", type := .primitive .date, crossField := some ⟨.greaterThan, "lent"⟩ }] }]

theorem check_guarantees_circle :
    ∃ set, circle.check = .ok set ∧ ∀ s ∈ set.schemas,
      (∃ t, set.registry.find? "person" = some t) ∧
        ∀ document frontmatter o,
          set.registry.validate document frontmatter s true ≠ .error (.comparison (.notComparison o)) := by
  have made : circle.check = .ok ⟨circle.schemas.map named, ⟨circle.types⟩⟩ := by rfl
  refine ⟨_, made, fun s schema => ?_⟩
  obtain ⟨_, _, guarantees⟩ := check_guarantees circle
  obtain ⟨found, rest⟩ := guarantees _ made s schema
  refine ⟨found "person" (.mentioned ?_), fun document frontmatter => (rest document frontmatter true).2⟩
  obtain ⟨s, written, rfl⟩ := List.mem_map.1 schema
  obtain rfl := List.mem_singleton.1 written
  decide

end Definitions
end VaultSchema
