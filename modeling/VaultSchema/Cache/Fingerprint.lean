import VaultSchema.Cache.Sha256
import VaultSchema.Json.Writing
import VaultSchema.Schema.SchemaSet

/-! Fingerprints: short digests of canonical JSON. That of a schema covers everything on which its
results depend, the declared types that it reaches included. -/

set_option autoImplicit false

namespace VaultSchema

def fingerprintLength : Nat := 16

def fingerprintText (text : String) : String :=
  let bytes := Sha256.digest text.toUTF8.toList
  String.ofList ((String.join (bytes.map fun b => hexText 2 b.toNat)).toList.take fingerprintLength)

def fingerprint (v : Value) : Except ValueFault String := do
  return fingerprintText (← Json.write .canonical v)

namespace Payload

def record (fields : List (String × Value)) : Value := .mapping (fields.map fun (k, v) => (.text k, v))

def optional {α : Type} (f : α → Value) (x : Option α) : Value := (x.map f).getD .null

def natural (n : Nat) : Value := .int n

def texts (xs : List String) : Value := .list (xs.map .text)

def type : FieldType → Value
  | .primitive k => record [("kind", .text k.name)]
  | .named n => record [("name", .text n)]

def condition (c : FieldCondition) : Value :=
  record [("field", .text c.field), ("operator", .text c.operator.name), ("value", .text c.value)]

def strings (c : StringConstraints) : Value :=
  record [("pattern", optional .text c.pattern), ("min_length", optional natural c.minLength),
    ("max_length", optional natural c.maxLength)]

def numbers (c : NumberConstraints) : Value :=
  record [("min", optional .float c.min), ("max", optional .float c.max)]

def dates (c : DateConstraints) : Value :=
  record [("min", optional .text c.min), ("max", optional .text c.max)]

def arrays (c : ArrayConstraints) : Value :=
  record [("min_items", optional natural c.minItems), ("max_items", optional natural c.maxItems),
    ("contains", texts c.contains)]

def crossField (c : CrossFieldConstraint) : Value :=
  record [("operator", .text c.operator.name), ("field", .text c.field)]

def field (f : FieldSpec) : Value :=
  record [("name", .text f.name), ("type", type f.type), ("required", .bool f.required),
    ("warn", .bool f.warn), ("unique", .bool f.unique),
    ("conditions", .list (f.conditions.map condition)),
    ("condition_logic", .text f.conditionLogic.name),
    ("array_element_type", optional type f.elementType),
    ("string_constraints", optional strings f.stringConstraints),
    ("number_constraints", optional numbers f.numberConstraints),
    ("date_constraints", optional dates f.dateConstraints),
    ("array_constraints", optional arrays f.arrayConstraints),
    ("cross_field_constraint", optional crossField f.crossField)]

def fields (fs : List FieldSpec) : Value := .list (fs.map field)

def namedType (t : NamedType) : Value := record [("name", .text t.name), ("fields", fields t.fields)]

def propertyCondition (c : PropertyCondition) : Value :=
  record [("property", .text c.property), ("operator", .text c.operator.name), ("value", .text c.value)]

def filter (f : PropertyFilter) : Value :=
  record [("modified_after", optional .text f.modifiedAfter),
    ("modified_before", optional .text f.modifiedBefore),
    ("created_after", optional .text f.createdAfter),
    ("created_before", optional .text f.createdBefore),
    ("has_property", optional .text f.hasProperty),
    ("not_has_property", optional .text f.notHasProperty),
    ("conditions", .list (f.conditions.map propertyCondition))]

/-- What the results of a schema depend on. Its name is not among it. -/
def schema (s : Schema) (r : Registry) : Value :=
  record [("id", .text s.id), ("query", .text s.query), ("enabled", .bool s.enabled),
    ("fields", fields s.fields), ("property_filter", optional filter s.filter),
    ("types", .list ((r.referencedTypes s.fields).map namedType))]

def settings (checkUnknown allowNative : Bool) : Value :=
  record [("check_unknown_fields", .bool checkUnknown), ("allow_native_properties", .bool allowNative)]

end Payload

def Schema.fingerprint (s : Schema) (r : Registry) : Except ValueFault String :=
  VaultSchema.fingerprint (Payload.schema s r)

def settingsFingerprint (checkUnknown allowNative : Bool) : String :=
  match fingerprint (Payload.settings checkUnknown allowNative) with
  | .ok digest => digest
  | .error _ => ""

end VaultSchema
