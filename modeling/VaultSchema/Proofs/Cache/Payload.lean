import Mathlib.Data.List.Basic
import VaultSchema.Cache.Fingerprint
import VaultSchema.Proofs.Schema.Reach
import VaultSchema.Query.Selection

/-! What the fingerprint of a schema covers. Its payload gives back all of the schema but the name,
and the declared types that are reached from it; on nothing else depends what the schema finds in a
note and whether it applies. -/

set_option autoImplicit false

namespace VaultSchema

theorem PrimitiveKind.name_injective : Function.Injective PrimitiveKind.name := fun k l same =>
  Option.some.inj (by rw [← ofName?_name k, same, ofName?_name l])

theorem Operator.name_injective : Function.Injective Operator.name := fun o p same =>
  Option.some.inj (by rw [← ofName?_name o, same, ofName?_name p])

theorem ConditionLogic.name_injective : Function.Injective ConditionLogic.name := by
  intro l m same
  cases l <;> cases m <;> first | rfl | exact absurd same (by decide)

namespace Payload

open Function (Injective)

theorem record_eq_cons {key : String} {v w : Value} {xs ys : List (String × Value)} :
    record ((key, v) :: xs) = record ((key, w) :: ys) ↔ v = w ∧ record xs = record ys := by
  simp [record]

theorem optional_injective {α : Type} {f : α → Value} (injective : Injective f) (some : ∀ a, f a ≠ .null) :
    Injective (optional f) := by
  intro x y same
  cases x with
  | none =>
    cases y with
    | none => rfl
    | some b => exact (some b same.symm).elim
  | some a =>
    cases y with
    | none => exact (some a same).elim
    | some b => exact congrArg Option.some (injective same)

theorem list_injective {α : Type} {f : α → Value} (injective : Injective f) :
    Injective fun l : List α => Value.list (l.map f) := by
  intro xs ys same
  exact List.map_injective_iff.2 injective (Value.sequence.inj same).2

theorem text_injective : Injective Value.text := fun s t same => by simpa using same

theorem bool_injective : Injective Value.bool := fun b c same => by simpa using same

theorem natural_injective : Injective natural := fun m n same => by
  have cast : (m : Int) = n := by simpa [natural] using same
  exact_mod_cast cast

theorem float_injective : Injective Value.float := fun x y same => by simpa using same

theorem optionalText_injective : Injective (optional .text) := optional_injective text_injective (by simp)

theorem optionalNatural_injective : Injective (optional natural) :=
  optional_injective natural_injective (by simp [natural])

theorem optionalFloat_injective : Injective (optional .float) := optional_injective float_injective (by simp)

theorem record_ne_null (fields : List (String × Value)) : record fields ≠ .null := by simp [record]

theorem type_ne_null (t : FieldType) : type t ≠ .null := by cases t <;> exact record_ne_null _

theorem type_injective : Injective type := by
  intro a b same
  cases a with
  | primitive k =>
    cases b with
    | primitive l =>
      have names : k.name = l.name := by simpa [type, record] using same
      rw [PrimitiveKind.name_injective names]
    | named n => simp [type, record] at same
  | named m =>
    cases b with
    | primitive l => simp [type, record] at same
    | named n =>
      have names : m = n := by simpa [type, record] using same
      rw [names]

theorem condition_injective : Injective condition := by
  intro a b same
  obtain ⟨field, operator, value⟩ := a
  simp only [condition, record_eq_cons, text_injective.eq_iff, Operator.name_injective.eq_iff, and_true] at same
  obtain ⟨rfl, rfl, rfl⟩ := same
  rfl

theorem strings_injective : Injective strings := by
  intro a b same
  obtain ⟨pattern, least, greatest⟩ := a
  simp only [strings, record_eq_cons, optionalText_injective.eq_iff, optionalNatural_injective.eq_iff,
    and_true] at same
  obtain ⟨rfl, rfl, rfl⟩ := same
  rfl

theorem numbers_injective : Injective numbers := by
  intro a b same
  obtain ⟨least, greatest⟩ := a
  simp only [numbers, record_eq_cons, optionalFloat_injective.eq_iff, and_true] at same
  obtain ⟨rfl, rfl⟩ := same
  rfl

theorem dates_injective : Injective dates := by
  intro a b same
  obtain ⟨least, greatest⟩ := a
  simp only [dates, record_eq_cons, optionalText_injective.eq_iff, and_true] at same
  obtain ⟨rfl, rfl⟩ := same
  rfl

theorem arrays_injective : Injective arrays := by
  intro a b same
  obtain ⟨least, greatest, contains⟩ := a
  simp only [arrays, record_eq_cons, optionalNatural_injective.eq_iff, texts,
    (list_injective text_injective).eq_iff, and_true] at same
  obtain ⟨rfl, rfl, rfl⟩ := same
  rfl

theorem crossField_injective : Injective crossField := by
  intro a b same
  obtain ⟨operator, field⟩ := a
  simp only [crossField, record_eq_cons, text_injective.eq_iff, Operator.name_injective.eq_iff, and_true] at same
  obtain ⟨rfl, rfl⟩ := same
  rfl

theorem field_injective : Injective field := by
  intro f g same
  obtain ⟨name, type, required, warn, unique, conditions, logic, element, strings', numbers', dates', arrays',
    cross⟩ := f
  simp only [field, record_eq_cons, text_injective.eq_iff, type_injective.eq_iff, bool_injective.eq_iff,
    (list_injective condition_injective).eq_iff, ConditionLogic.name_injective.eq_iff,
    (optional_injective type_injective type_ne_null).eq_iff,
    (optional_injective strings_injective fun _ => record_ne_null _).eq_iff,
    (optional_injective numbers_injective fun _ => record_ne_null _).eq_iff,
    (optional_injective dates_injective fun _ => record_ne_null _).eq_iff,
    (optional_injective arrays_injective fun _ => record_ne_null _).eq_iff,
    (optional_injective crossField_injective fun _ => record_ne_null _).eq_iff, and_true] at same
  obtain ⟨rfl, rfl, rfl, rfl, rfl, rfl, rfl, rfl, rfl, rfl, rfl, rfl, rfl⟩ := same
  rfl

theorem fields_injective : Injective fields := list_injective field_injective

theorem namedType_injective : Injective namedType := by
  intro a b same
  obtain ⟨name, inner⟩ := a
  simp only [namedType, record_eq_cons, text_injective.eq_iff, fields_injective.eq_iff, and_true] at same
  obtain ⟨rfl, rfl⟩ := same
  rfl

theorem propertyCondition_injective : Injective propertyCondition := by
  intro a b same
  obtain ⟨property, operator, value⟩ := a
  simp only [propertyCondition, record_eq_cons, text_injective.eq_iff, Operator.name_injective.eq_iff,
    and_true] at same
  obtain ⟨rfl, rfl, rfl⟩ := same
  rfl

theorem filter_injective : Injective filter := by
  intro a b same
  obtain ⟨modifiedAfter, modifiedBefore, createdAfter, createdBefore, has, hasNot, conditions⟩ := a
  simp only [filter, record_eq_cons, optionalText_injective.eq_iff,
    (list_injective propertyCondition_injective).eq_iff, and_true] at same
  obtain ⟨rfl, rfl, rfl, rfl, rfl, rfl, rfl⟩ := same
  rfl

/-- The payload gives back the schema but for its name, and the types that are reached. -/
theorem schema_eq {s t : Schema} {r q : Registry} (same : schema s r = schema t q) :
    (∃ name, t = { s with name := name }) ∧ r.referencedTypes s.fields = q.referencedTypes t.fields := by
  obtain ⟨id, query, inner, name, enabled, filter'⟩ := s
  simp only [schema, record_eq_cons, text_injective.eq_iff, bool_injective.eq_iff, fields_injective.eq_iff,
    (optional_injective filter_injective fun _ => record_ne_null _).eq_iff,
    (list_injective namedType_injective).eq_iff, and_true] at same
  obtain ⟨rfl, rfl, rfl, rfl, rfl, found⟩ := same
  exact ⟨⟨t.name, rfl⟩, found⟩

theorem settings_eq {unknown native other another : Bool}
    (same : settings unknown native = settings other another) : unknown = other ∧ native = another := by
  simpa only [settings, record_eq_cons, bool_injective.eq_iff, and_true] using same

end Payload

theorem Registry.agreeOn_of_payload {s t : Schema} {r q : Registry}
    (same : Payload.schema s r = Payload.schema t q) : r.AgreeOn q (FieldSpec.mentioned s.fields) := by
  obtain ⟨⟨name, rfl⟩, found⟩ := Payload.schema_eq same
  exact fun type reaches => Registry.resolve?_of_referencedTypes found reaches

theorem validate_of_payload {s t : Schema} {r q : Registry} (same : Payload.schema s r = Payload.schema t q)
    (document : String) (frontmatter : Option Entries) (checkUnknown : Bool) :
    q.validate document frontmatter t checkUnknown = r.validate document frontmatter s checkUnknown := by
  rw [← Registry.validate_congr (Registry.agreeOn_of_payload same)]
  obtain ⟨⟨name, rfl⟩, _⟩ := Payload.schema_eq same
  rfl

theorem applies_of_payload {s t : Schema} {r q : Registry} (same : Payload.schema s r = Payload.schema t q)
    (d : Document) : t.applies d = s.applies d := by
  obtain ⟨⟨name, rfl⟩, _⟩ := Payload.schema_eq same
  rfl

/-- The payload of a schema covers all on which its results depend: with the same payload two schemas find
the same in every note and apply to the same notes. Declared types that are not reached may be added,
removed or changed without any effect. -/
theorem findings_of_payload (s t : Schema) (r q : Registry) (same : Payload.schema s r = Payload.schema t q) :
    (∀ document frontmatter checkUnknown,
      r.validate document frontmatter s checkUnknown = q.validate document frontmatter t checkUnknown) ∧
    (∀ d, s.applies d = t.applies d) ∧
    ∀ other : Registry,
      (∀ n, r.Reaches (FieldSpec.mentioned s.fields) (.named n) → other.find? n = r.find? n) →
        ∀ document frontmatter checkUnknown,
          other.validate document frontmatter s checkUnknown = r.validate document frontmatter s checkUnknown := by
  refine ⟨?_, fun d => (applies_of_payload same d).symm, ?_⟩
  · exact fun document frontmatter checkUnknown => (validate_of_payload same document frontmatter checkUnknown).symm
  · intro other kept
    refine Registry.validate_congr fun type reaches => ?_
    cases type with
    | primitive k => rfl
    | named n => exact kept n reaches

def person : NamedType := ⟨"person", [{ name := "friend", type := .named "person" },
  { name := "pets", type := .primitive .array, elementType := some (.named "animal") }]⟩

def animal : NamedType := ⟨"animal", [{ name := "name", type := .primitive .string, required := true }]⟩

def tool : NamedType := ⟨"tool", [{ name := "owner", type := .named "person" }]⟩

def acquaintances : Registry := ⟨[person, animal]⟩

def household : Registry := ⟨[tool, animal, person]⟩

def diaries : Schema := { id := "diaries", query := "#diary", fields := [{ name := "author", type := .named "person" }] }

theorem household_same : Payload.schema diaries acquaintances = Payload.schema { diaries with name := "Diaries" } household := by
  have found : ∀ r : Registry, r.resolve? (.named "person") = some person →
      r.resolve? (.named "animal") = some animal → r.referencedTypes diaries.fields = [person, animal] := by
    intro r isPerson isAnimal
    have plain : ∀ k, r.resolve? (.primitive k) = none := fun _ => rfl
    have ends : ∀ found, r.search found [] = found := fun _ => by rw [Registry.search]
    have first : FieldSpec.mentioned person.fields = [.named "person", .primitive .array, .named "animal"] := rfl
    have second : FieldSpec.mentioned animal.fields = [.primitive .string] := rfl
    have names : person.name = "person" ∧ animal.name = "animal" := ⟨rfl, rfl⟩
    have start : diaries.fields.flatMap FieldSpec.types = [.named "person"] := rfl
    rw [Registry.referencedTypes, start]
    simp [Registry.search_cons, isPerson, isAnimal, plain, ends, first, second, names]
  unfold Payload.schema
  rw [found acquaintances rfl rfl, found household rfl rfl]

theorem reaches_diaries {type : FieldType}
    (reaches : acquaintances.Reaches (FieldSpec.mentioned diaries.fields) type) :
    type ∈ [.named "person", .named "animal", .primitive .array, .primitive .string] := by
  induction reaches with
  | mentioned mem =>
    obtain rfl : _ = FieldType.named "person" := by simpa [diaries, FieldSpec.mentioned, FieldSpec.types] using mem
    decide
  | through outer declared mem ih =>
    simp only [List.mem_cons, List.not_mem_nil, or_false] at ih
    obtain rfl | rfl | rfl | rfl := ih
    · cases declared
      simp only [person, FieldSpec.mentioned, FieldSpec.types, List.flatMap_cons, List.flatMap_nil,
        Option.toList, List.mem_append, List.mem_cons, List.not_mem_nil, or_false] at mem
      obtain rfl | rfl | rfl := mem
      all_goals decide
    · cases declared
      obtain rfl : _ = FieldType.primitive .string := by
        simpa [animal, FieldSpec.mentioned, FieldSpec.types] using mem
      decide
    · cases declared
    · cases declared

/-- The household declares a tool beside the types that a diary reaches, and declares these in another
order. -/
theorem findings_household :
    Payload.schema diaries acquaintances = Payload.schema { diaries with name := "Diaries" } household ∧
    (∀ n, acquaintances.Reaches (FieldSpec.mentioned diaries.fields) (.named n) →
      household.find? n = acquaintances.find? n) ∧
    (∀ document frontmatter checkUnknown,
      acquaintances.validate document frontmatter diaries checkUnknown =
        household.validate document frontmatter { diaries with name := "Diaries" } checkUnknown) ∧
    ∀ document frontmatter checkUnknown,
      household.validate document frontmatter diaries checkUnknown =
        acquaintances.validate document frontmatter diaries checkUnknown := by
  have kept : ∀ n, acquaintances.Reaches (FieldSpec.mentioned diaries.fields) (.named n) →
      household.find? n = acquaintances.find? n := by
    intro n reaches
    have met := reaches_diaries reaches
    simp only [List.mem_cons, FieldType.named.injEq, reduceCtorEq, List.not_mem_nil, or_false] at met
    obtain rfl | rfl := met
    · rfl
    · rfl
  obtain ⟨same, _, others⟩ := findings_of_payload _ _ _ _ household_same
  exact ⟨household_same, kept, same, others household kept⟩

end VaultSchema
