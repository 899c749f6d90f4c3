import VaultSchema.Cache.Fingerprint
import VaultSchema.Proofs.Json.Plain

set_option autoImplicit false

namespace VaultSchema

namespace Payload

open Value (Plain)

theorem plain_record {fields : List (String × Value)} (distinct : (fields.map Prod.fst).Nodup)
    (plain : ∀ f ∈ fields, f.2.Plain) : (record fields).Plain := by
  refine .mapping _ ?_ ?_ ?_
  · intro e mem
    obtain ⟨f, _, rfl⟩ := List.mem_map.1 mem
    exact ⟨f.1, rfl⟩
  · have keys : (fields.map fun f => (Scalar.text f.1, f.2)).map Prod.fst =
        (fields.map Prod.fst).map Scalar.text := by simp
    refine keys.symm ▸ ?_
    exact distinct.map fun a b same => Scalar.text.inj same
  · intro e mem
    obtain ⟨f, inside, rfl⟩ := List.mem_map.1 mem
    exact plain f inside

theorem plain_optional {α : Type} {f : α → Value} {x : Option α} (plain : ∀ a, x = some a → (f a).Plain) :
    (optional f x).Plain := by
  cases x with
  | none => exact .null
  | some a => exact plain a rfl

theorem plain_list {α : Type} {f : α → Value} {l : List α} (plain : ∀ a ∈ l, (f a).Plain) :
    (Value.list (l.map f)).Plain := by
  refine .list _ fun v mem => ?_
  obtain ⟨a, inside, rfl⟩ := List.mem_map.1 mem
  exact plain a inside

theorem plain_optionalText (x : Option String) : (optional .text x).Plain := plain_optional fun a _ => .text a

theorem plain_type (t : FieldType) : (type t).Plain := by
  cases t <;> exact plain_record (by simp) (by simp [Plain.text])

theorem plain_condition (c : FieldCondition) : (condition c).Plain :=
  plain_record (by simp) (by simp [Plain.text])

theorem plain_dates (c : DateConstraints) : (dates c).Plain :=
  plain_record (by simp) (by simp [plain_optionalText])

theorem plain_crossField (c : CrossFieldConstraint) : (crossField c).Plain :=
  plain_record (by simp) (by simp [Plain.text])

theorem plain_propertyCondition (c : PropertyCondition) : (propertyCondition c).Plain :=
  plain_record (by simp) (by simp [Plain.text])

theorem plain_filter (f : PropertyFilter) : (filter f).Plain :=
  plain_record (by simp) (by simp [plain_optionalText, plain_list fun c _ => plain_propertyCondition c])

structure Bounded (f : FieldSpec) : Prop where
  strings : ∀ c, f.stringConstraints = some c → (Payload.strings c).Plain
  numbers : ∀ c, f.numberConstraints = some c → (Payload.numbers c).Plain
  arrays : ∀ c, f.arrayConstraints = some c → (Payload.arrays c).Plain

theorem plain_field {f : FieldSpec} (bounded : Bounded f) : (field f).Plain := by
  refine plain_record (by simp) ?_
  simp only [List.forall_mem_cons, List.not_mem_nil, false_implies, implies_true, and_true]
  exact ⟨.text _, plain_type _, .bool _, .bool _, .bool _, plain_list fun c _ => plain_condition c, .text _,
    plain_optional fun t _ => plain_type t, plain_optional bounded.strings, plain_optional bounded.numbers,
    plain_optional fun c _ => plain_dates c, plain_optional bounded.arrays,
    plain_optional fun c _ => plain_crossField c⟩

theorem plain_fields {fs : List FieldSpec} (bounded : ∀ f ∈ fs, Bounded f) : (fields fs).Plain :=
  plain_list fun f mem => plain_field (bounded f mem)

theorem plain_schema {s : Schema} {r : Registry} (own : ∀ f ∈ s.fields, Bounded f)
    (inner : ∀ t ∈ r.referencedTypes s.fields, ∀ f ∈ t.fields, Bounded f) : (schema s r).Plain := by
  refine plain_record (by simp) ?_
  simp only [List.forall_mem_cons, List.not_mem_nil, false_implies, implies_true, and_true]
  refine ⟨.text _, .text _, .bool _, plain_fields own, plain_optional fun f _ => plain_filter f,
    plain_list fun t mem => plain_record (by simp) ?_⟩
  simp only [List.forall_mem_cons, List.not_mem_nil, false_implies, implies_true, and_true]
  exact ⟨.text _, plain_fields (inner t mem)⟩

end Payload

theorem exists_fingerprint {v : Value} (plain : v.Plain) : ∃ digest, fingerprint v = .ok digest := by
  obtain ⟨text, written⟩ := plain.exists_writeAt .canonical 0
  exact ⟨fingerprintText text, Outcome.bind_eq_ok.2 ⟨text, written, rfl⟩⟩

theorem Schema.exists_fingerprint {s : Schema} {r : Registry} (own : ∀ f ∈ s.fields, Payload.Bounded f)
    (inner : ∀ t ∈ r.referencedTypes s.fields, ∀ f ∈ t.fields, Payload.Bounded f) :
    ∃ digest, s.fingerprint r = .ok digest :=
  VaultSchema.exists_fingerprint (Payload.plain_schema own inner)

end VaultSchema
