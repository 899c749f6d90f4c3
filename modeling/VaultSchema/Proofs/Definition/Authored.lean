import Mathlib
import VaultSchema.Proofs.Definition.Checked
import VaultSchema.Proofs.Schema.Conformance
import VaultSchema.Proofs.Schema.Loading

/-! Declarations written down and loaded again. The authored form gives back the name, the types and
the marks of a declaration. Conditions and constraints are not written down. -/

set_option autoImplicit false

namespace VaultSchema

theorem FieldType.ofName_name_ofName (s : String) : ofName (ofName s).name = ofName s := by
  unfold ofName
  cases kind : PrimitiveKind.ofName? s with
  | some k => simp [FieldType.name, PrimitiveKind.ofName?_name]
  | none => simp [FieldType.name, kind]

theorem FieldType.ofName_name_ne_empty {s : String} (named : s ≠ "") : (ofName s).name ≠ "" := by
  unfold ofName
  cases PrimitiveKind.ofName? s with
  | some k =>
    change k.name ≠ ""
    cases k <;> decide
  | none => exact named

namespace Entries

@[simp] theorem get?_nil (key : String) : get? key [] = none := rfl

@[simp] theorem get?_cons_text (key k : String) (v : Value) (rest : Entries) :
    get? key ((.text k, v) :: rest) = if key = k then some v else rest.get? key := by
  by_cases same : k = key
  · simp [get?, find?, same]
  · simp [get?, find?, same, Ne.symm same]

theorem get?_append (key : String) (m n : Entries) : get? key (m ++ n) = (get? key m).or (get? key n) := by
  simp only [get?, find?, List.find?_append]
  cases List.find? (fun e => e.1.sameKey (.text key)) m <;> rfl

def under (keys : List String) (m : Entries) : Entries := m.filter fun e => keys.any fun k => e.1.sameKey (.text k)

theorem get?_under {keys : List String} {key : String} (mem : key ∈ keys) (m : Entries) :
    get? key (m.under keys) = get? key m := by
  have kept (e : Scalar × Value) :
      (keys.any fun k => e.1.sameKey (.text k)) = true ∧ e.1.sameKey (.text key) = true ↔
        e.1.sameKey (.text key) = true := by
    rw [and_iff_right_iff_imp, List.any_eq_true]
    exact fun same => ⟨key, mem, same⟩
  simp only [get?, find?, under, List.find?_filter, kept, Bool.decide_eq_true]

theorem get?_under_of_notMem {keys : List String} {key : String} (other : key ∉ keys) (m : Entries) :
    get? key (m.under keys) = none := by
  rw [get?, find?, under, Option.map_eq_none_iff, List.find?_eq_none]
  intro e mem same
  obtain ⟨k, listed, as⟩ := List.any_eq_true.1 (List.mem_filter.1 mem).2
  rw [Scalar.sameKey_text_iff] at same as
  cases same.symm.trans as
  exact other listed

end Entries

namespace FieldSpec

/-- What the authored form of a declaration tells of it. -/
def plain (f : FieldSpec) : FieldSpec where
  name := f.name
  type := f.type
  required := f.required
  warn := f.warn
  unique := f.unique
  elementType := f.elementType

theorem plain_eq_self_iff {f : FieldSpec} : f.plain = f ↔
    f.conditions = [] ∧ f.conditionLogic = .all ∧ f.stringConstraints = none ∧ f.numberConstraints = none ∧
      f.dateConstraints = none ∧ f.arrayConstraints = none ∧ f.crossField = none := by
  cases f
  simp [plain, eq_comm]

/-- A declaration as it can be written in a file: it has a name, and its types go by their names. -/
structure Written (f : FieldSpec) : Prop where
  name : f.name ≠ ""
  type : FieldType.ofName f.type.name = f.type
  element : ∀ e, f.elementType = some e → e.name ≠ "" ∧ FieldType.ofName e.name = e

theorem get?_authored (f : FieldSpec) (key : String) : f.authored.get? key =
    if key = "name" then some (.text f.name)
    else if key = "type" then some (.text f.type.name)
    else if key = "required" then (if f.required then some (.bool true) else none)
    else if key = "warn" then (if f.warn then some (.bool true) else none)
    else if key = "unique" then (if f.unique then some (.bool true) else none)
    else if key = "array_element_type" then f.elementType.map fun e => .text e.name
    else none := by
  unfold authored
  cases f.required <;> cases f.warn <;> cases f.unique <;> cases f.elementType <;> simp <;> grind

end FieldSpec

namespace Definition

open Checked Lenient

theorem nonemptyText_eq_good {v : Value} {s : String} (read : nonemptyText v = .good s) : s ≠ "" := by
  obtain ⟨t, -, checked⟩ := refine_eq_good.1 read
  split at checked
  · cases checked
  · rename_i filled
    cases checked
    simpa using filled

theorem written_of_elementType {v : Value} {e : FieldType} (read : elementType v = .good (some e)) :
    e.name ≠ "" ∧ FieldType.ofName e.name = e := by
  obtain ⟨s, -, named⟩ := map_eq_good.1 read
  obtain ⟨n, -, named⟩ := Option.bind_eq_some_iff.1 named
  split at named
  · cases named
  · rename_i filled
    cases named
    exact ⟨FieldType.ofName_name_ne_empty (by simpa using filled), FieldType.ofName_name_ofName n⟩

theorem field_eq_good_iff {m : Entries} {f : FieldSpec} : field m = .good f ↔
    required m "name" nonemptyText = .good f.name ∧
      map FieldType.ofName (optional m "type" "string" text) = .good f.type ∧
      optional m "required" false truth = .good f.required ∧ optional m "warn" false truth = .good f.warn ∧
      optional m "unique" false truth = .good f.unique ∧
      optional m "conditions" [] (list (mapping fieldCondition)) = .good f.conditions ∧
      optional m "condition_logic" .all conditionLogic = .good f.conditionLogic ∧
      optional m "array_element_type" none elementType = .good f.elementType ∧
      optional m "string_constraints" none (orNull (mapping stringConstraints)) = .good f.stringConstraints ∧
      optional m "number_constraints" none (orNull (mapping numberConstraints)) = .good f.numberConstraints ∧
      optional m "date_constraints" none (orNull (mapping dateConstraints)) = .good f.dateConstraints ∧
      optional m "array_constraints" none (orNull (mapping arrayConstraints)) = .good f.arrayConstraints ∧
      optional m "cross_field_constraint" none (orNull (mapping crossField)) = .good f.crossField := by
  constructor
  · intro read
    simp only [field, seq_eq_good, map_eq_good] at read
    obtain ⟨_, _, ⟨_, _, ⟨_, _, ⟨_, _, ⟨_, _, ⟨_, _, ⟨_, _, ⟨_, _, ⟨_, _, ⟨_, _, ⟨_, _, ⟨_, _, ⟨_, named, rfl⟩,
      typed, rfl⟩, required, rfl⟩, warn, rfl⟩, unique, rfl⟩, conditions, rfl⟩, logic, rfl⟩, element, rfl⟩,
      string, rfl⟩, number, rfl⟩, date, rfl⟩, array, rfl⟩, cross, rfl⟩ := read
    exact ⟨named, typed, required, warn, unique, conditions, logic, element, string, number, date, array, cross⟩
  · rintro ⟨h₁, h₂, h₃, h₄, h₅, h₆, h₇, h₈, h₉, h₁₀, h₁₁, h₁₂, h₁₃⟩
    rw [field, h₁, h₂, h₃, h₄, h₅, h₆, h₇, h₈, h₉, h₁₀, h₁₁, h₁₂, h₁₃]
    rfl

theorem written_of_field {m : Entries} {f : FieldSpec} (read : field m = .good f) : f.Written := by
  obtain ⟨named, typed, -, -, -, -, -, element, -⟩ := field_eq_good_iff.1 read
  refine ⟨?_, ?_, ?_⟩
  · obtain ⟨v, named⟩ := required_eq_good named
    exact nonemptyText_eq_good named
  · obtain ⟨s, -, typed⟩ := map_eq_good.1 typed
    rw [← typed, FieldType.ofName_name_ofName]
  · intro e some
    rw [some] at element
    rcases optionalOf_eq_good element with absent | ⟨v, element⟩
    · cases absent
    · exact written_of_elementType element

section authored

variable {f : FieldSpec} {key : String}

theorem firstOf_authored (f : FieldSpec) (key : String) (other : camel key = key ∨ f.authored.get? (camel key) = none) :
    firstOf f.authored (spellings key) = (f.authored.get? key).map fun v => (key, v) := by
  rcases other with same | absent
  · cases found : f.authored.get? key <;> simp [firstOf, spellings, same, found]
  · cases found : f.authored.get? key <;> simp [firstOf, spellings, absent, found]

theorem mark_authored {set : Bool} (single : camel key = key)
    (marked : f.authored.get? key = if set then some (.bool true) else none) :
    Checked.optional f.authored key false truth = .good set := by
  have found := firstOf_authored f key (.inl single)
  rw [marked] at found
  cases set with
  | false => exact optionalOf_absent found
  | true => exact optionalOf_found found rfl

theorem unset_authored {α : Type} {default : α} {read : Value → Checked α}
    (other : f.authored.get? (camel key) = none) (absent : f.authored.get? key = none) :
    Checked.optional f.authored key default read = .good default := by
  have found := firstOf_authored f key (.inr other)
  rw [absent] at found
  exact optionalOf_absent found

theorem elementType_authored (written : f.Written) :
    Checked.optional f.authored "array_element_type" none elementType = .good f.elementType := by
  have found := firstOf_authored f "array_element_type" (.inr (by rw [f.get?_authored]; rfl))
  have own : f.authored.get? "array_element_type" = f.elementType.map fun e => .text e.name := by
    rw [f.get?_authored]
    rfl
  rw [own] at found
  cases element : f.elementType with
  | none => exact optionalOf_absent (by rw [found, element]; rfl)
  | some e =>
    obtain ⟨named, same⟩ := written.element e element
    have read : elementType (.text e.name) = .good (some (.ofName e.name)) := by
      change Checked.good (if e.name.isEmpty then none else some (FieldType.ofName e.name)) = _
      rw [if_neg (by simpa using named)]
    rw [← same]
    exact optionalOf_found (by rw [found, element]; rfl) read

/-- A declaration that is written down is read again without its conditions and constraints. -/
theorem field_authored (written : f.Written) : field f.authored = .good f.plain := by
  have get? := f.get?_authored
  have name : required f.authored "name" nonemptyText = .good f.name := by
    have found := firstOf_authored f "name" (.inl (by decide))
    rw [get?] at found
    refine required_found found ?_
    simp [nonemptyText, Lenient.text, refine, written.name]
  have type : map FieldType.ofName (Checked.optional f.authored "type" "string" text) = .good f.type := by
    have found := firstOf_authored f "type" (.inl (by decide))
    rw [get?] at found
    exact map_eq_good.2 ⟨_, optionalOf_found found rfl, written.type⟩
  refine field_eq_good_iff.2 ⟨name, type, ?_, ?_, ?_, ?_, ?_, elementType_authored written, ?_, ?_, ?_, ?_, ?_⟩
  case refine_1 => exact mark_authored (by decide) (by rw [get?]; rfl)
  case refine_2 => exact mark_authored (by decide) (by rw [get?]; rfl)
  case refine_3 => exact mark_authored (by decide) (by rw [get?]; rfl)
  -- Conditions and constraints are not written down.
  all_goals exact unset_authored (by rw [get?]; rfl) (by rw [get?]; rfl)

end authored

theorem written_of_fields {m : Entries} {fs : List FieldSpec} (read : fields m = .good fs) : ∀ f ∈ fs, f.Written := by
  intro f mem
  obtain ⟨n, read⟩ := exists_of_mem read mem
  exact written_of_field read

theorem written_of_namedType {m : Entries} {t : NamedType} (read : namedType m = .good t) :
    ∀ f ∈ t.fields, f.Written := by
  obtain ⟨_, fs, first, own, rfl⟩ := seq_eq_good.1 read
  obtain ⟨_, -, rfl⟩ := map_eq_good.1 first
  exact written_of_fields own

theorem written_of_schema {m : Entries} {s : Schema} (read : schema m = .good s) :
    ∀ f ∈ s.fields, f.Written := by
  simp only [schema, seq_eq_good, map_eq_good] at read
  obtain ⟨_, _, ⟨_, fs, ⟨_, _, ⟨_, _, ⟨_, _, ⟨_, -, rfl⟩, -, rfl⟩, -, rfl⟩, -, rfl⟩, read, rfl⟩, -, rfl⟩ := read
  exact written_of_fields read

theorem written_of_definitions {content : Entries} {d : Definitions} (read : definitions content = .good d) :
    ∀ f ∈ d.fields, f.Written := by
  obtain ⟨_, schemas, first, ofSchemas, rfl⟩ := seq_eq_good.1 read
  obtain ⟨types, ofTypes, rfl⟩ := map_eq_good.1 first
  intro f mem
  rcases List.mem_append.1 mem with mem | mem <;> obtain ⟨owner, inside, mem⟩ := List.mem_flatMap.1 mem
  · obtain ⟨n, read⟩ := exists_of_mem ofTypes inside
    exact written_of_namedType read f mem
  · obtain ⟨n, read⟩ := exists_of_mem ofSchemas inside
    exact written_of_schema read f mem

def typeKeys : List String := ["types", "custom_types", "customTypes"]

/-- A definitions file with the types of another one and with one schema, of a declaration written down. -/
def authoredFile (content : Entries) (id : String) (f : FieldSpec) : Entries :=
  content.under typeKeys ++
    [(.text "schemas", .list [.mapping [(.text "id", .text id), (.text "fields", .list [.mapping f.authored])]])]

variable {content : Entries} {id : String} {f : FieldSpec}

theorem types_authoredFile : optionalOf (authoredFile content id f) typeKeys [] (list (mapping namedType)) =
    optionalOf content typeKeys [] (list (mapping namedType)) := by
  refine optionalOf_congr fun key mem => ?_
  have other : key ≠ "schemas" := by
    rintro rfl
    exact absurd mem (by decide)
  rw [authoredFile, Entries.get?_append, Entries.get?_under mem, Entries.get?_cons_text, if_neg other]
  simp

theorem list_singleton {α : Type} {read : Entries → Checked α} {m : Entries} {a : α} (own : read m = .good a) :
    list (mapping read) (.list [.mapping m]) = .good [a] := by
  refine seq_eq_good.2 ⟨_, [], map_eq_good.2 ⟨a, under_eq_good.2 own, rfl⟩, rfl, rfl⟩

theorem schema_authored (identified : id ≠ "") (written : f.Written) :
    schema [(.text "id", .text id), (.text "fields", .list [.mapping f.authored])] =
      .good { id, query := "", fields := [f.plain] } := by
  set m : Entries := [(.text "id", .text id), (.text "fields", .list [.mapping f.authored])]
  have own : required m "id" nonemptyText = .good id := by
    refine required_found (k := "id") (v := .text id) rfl ?_
    simp [nonemptyText, Lenient.text, refine, identified]
  have listed : fields m = .good [f.plain] :=
    optionalOf_found (k := "fields") (v := .list [.mapping f.authored]) rfl (list_singleton (field_authored written))
  unfold schema
  rw [own, listed]
  rfl

theorem definitions_authoredFile {d : Definitions} (read : definitions content = .good d) (identified : id ≠ "")
    (written : f.Written) : definitions (authoredFile content id f) =
      .good ⟨d.types, [{ id, query := "", fields := [f.plain] }]⟩ := by
  obtain ⟨_, schemas, first, -, rfl⟩ := seq_eq_good.1 read
  obtain ⟨types, ofTypes, rfl⟩ := map_eq_good.1 first
  have ofSchemas : optionalOf (authoredFile content id f) ["schemas", "schema_mappings", "schemaMappings"] []
      (list (mapping schema)) = .good [{ id, query := "", fields := [f.plain] }] := by
    have found : firstOf (authoredFile content id f) ["schemas", "schema_mappings", "schemaMappings"] =
        some ("schemas", .list [.mapping [(.text "id", .text id), (.text "fields", .list [.mapping f.authored])]]) := by
      simp [firstOf, authoredFile, Entries.get?_append, Entries.get?_under_of_notMem, typeKeys]
    exact optionalOf_found found (list_singleton (schema_authored identified written))
  refine seq_eq_good.2 ⟨_, _, map_eq_good.2 ⟨types, ?_, rfl⟩, ofSchemas, rfl⟩
  exact types_authoredFile.trans ofTypes

end Definition

def SchemaSet.fields (set : SchemaSet) : List FieldSpec :=
  set.registry.types.flatMap (·.fields) ++ set.schemas.flatMap (·.fields)

namespace Definition

theorem load_eq_ok_iff {content : Entries} {set : SchemaSet} : SchemaSet.load content = .ok set ↔
    ∃ d, definitions content = .good d ∧ d.WellFormed ∧ set = ⟨d.schemas.map Definitions.named, ⟨d.types⟩⟩ := by
  unfold SchemaSet.load
  cases definitions content with
  | bad problems => simp
  | broken fault => simp
  | good d => simp [Definitions.check_eq_ok_iff]

/-- A declaration that was loaded and is written down loads again, over the same types, with its name, its
types and its marks. It is the same declaration just when it had no conditions and no constraints. -/
theorem load_authored {content : Entries} {set : SchemaSet} {f : FieldSpec} {id : String}
    (loaded : SchemaSet.load content = .ok set) (declared : f ∈ set.fields) (identified : id ≠ "") :
    SchemaSet.load (authoredFile content id f) =
        .ok ⟨[{ id, query := "", fields := [f.plain], name := id }], set.registry⟩ ∧
      (f.plain = f ↔ f.conditions = [] ∧ f.conditionLogic = .all ∧ f.stringConstraints = none ∧
        f.numberConstraints = none ∧ f.dateConstraints = none ∧ f.arrayConstraints = none ∧ f.crossField = none) := by
  refine ⟨?_, FieldSpec.plain_eq_self_iff⟩
  obtain ⟨d, read, wf, rfl⟩ := load_eq_ok_iff.1 loaded
  have declared : f ∈ d.fields := by
    simpa [SchemaSet.fields, Definitions.fields, Definitions.named, List.flatMap_map] using declared
  have again := definitions_authoredFile read identified (written_of_definitions read f declared)
  refine load_eq_ok_iff.2 ⟨_, again, .of_parts wf.types (List.nodup_singleton _) ?_ ?_, rfl⟩
  · exact fun t type g mem => wf.of_type type mem
  · simp only [List.mem_singleton, forall_eq]
    exact ⟨wf.references f declared, nofun⟩

def lending : Entries :=
  let reader : Entries := [(.text "name", .text "reader"), (.text "type", .text "person"), (.text "required", .int 1)]
  let known : Entries := [(.text "name", .text "known"), (.text "type", .text "array"),
    (.text "arrayElementType", .text "person")]
  [(.text "customTypes", .list [.mapping [(.text "name", .text "person"), (.text "fields", .list [.mapping known])]]),
    (.text "schemas", .list [.mapping [(.text "id", .text "loans"), (.text "field_specs", .list [.mapping reader])]])]

theorem load_authored_lending :
    ∃ set, SchemaSet.load lending = .ok set ∧ ∀ f ∈ set.fields,
      SchemaSet.load (authoredFile lending "again" f) =
        .ok ⟨[{ id := "again", query := "", fields := [f], name := "again" }], set.registry⟩ := by
  have made : SchemaSet.load lending = .ok ⟨[{
      id := "loans", query := "", name := "loans"
      fields := [{ name := "reader", type := .named "person", required := true }] }],
      ⟨[⟨"person", [{ name := "known", type := .primitive .array, elementType := some (.named "person") }]⟩]⟩⟩ := by
    rfl
  refine ⟨_, made, fun f mem => ?_⟩
  obtain ⟨again, same⟩ := load_authored made mem (by decide : "again" ≠ "")
  have plain : f.plain = f := by
    rw [same]
    revert f
    decide
  rw [plain] at again
  exact again

/-- A rating of one or more comes back as any number. -/
theorem rating_bound_lost :
    let rating : FieldSpec := {
      name := "rating", type := .primitive .number, numberConstraints := some ⟨some .one, none⟩ }
    let books : Entries := [(.text "schemas", .list [.mapping [(.text "id", .text "books"), (.text "query", .text "*"),
      (.text "fields", .list [.mapping [(.text "name", .text "rating"), (.text "type", .text "number"),
        (.text "number_constraints", .mapping [(.text "min", .float .one)])]])]])]
    SchemaSet.load books = .ok ⟨[{ id := "books", query := "*", fields := [rating], name := "books" }], {}⟩ ∧
      SchemaSet.load (authoredFile books "books" rating) =
        .ok ⟨[{
            id := "books", query := "", name := "books"
            fields := [{ name := "rating", type := .primitive .number }] }], {}⟩ := by
  refine ⟨?_, ?_⟩ <;> rfl

end Definition
end VaultSchema
