import VaultSchema.Json.Writing

/-! Violations: one reported deviation of a note from a schema. Three kinds are warnings, all others
errors. Stored violations are read back with whatever values stand in place of their texts; only the
kind must be one of the known names. -/

set_option autoImplicit false

namespace VaultSchema

inductive ViolationKind where
  | missingRequired
  | missingWarned
  | typeMismatch
  | typeMismatchWarned
  | unknownField
  | patternMismatch
  | stringTooShort
  | stringTooLong
  | numberTooSmall
  | numberTooLarge
  | dateTooEarly
  | dateTooLate
  | arrayTooFew
  | arrayTooMany
  | arrayMissingValue
  | duplicateValue
  | crossFieldViolation
  deriving DecidableEq, Repr

namespace ViolationKind

def all : List ViolationKind :=
  [.missingRequired, .missingWarned, .typeMismatch, .typeMismatchWarned, .unknownField,
    .patternMismatch, .stringTooShort, .stringTooLong, .numberTooSmall, .numberTooLarge,
    .dateTooEarly, .dateTooLate, .arrayTooFew, .arrayTooMany, .arrayMissingValue, .duplicateValue,
    .crossFieldViolation]

def name : ViolationKind → String
  | .missingRequired => "missing_required"
  | .missingWarned => "missing_warned"
  | .typeMismatch => "type_mismatch"
  | .typeMismatchWarned => "type_mismatch_warned"
  | .unknownField => "unknown_field"
  | .patternMismatch => "pattern_mismatch"
  | .stringTooShort => "string_too_short"
  | .stringTooLong => "string_too_long"
  | .numberTooSmall => "number_too_small"
  | .numberTooLarge => "number_too_large"
  | .dateTooEarly => "date_too_early"
  | .dateTooLate => "date_too_late"
  | .arrayTooFew => "array_too_few"
  | .arrayTooMany => "array_too_many"
  | .arrayMissingValue => "array_missing_value"
  | .duplicateValue => "duplicate_value"
  | .crossFieldViolation => "cross_field_violation"

def ofName? (s : String) : Option ViolationKind := all.find? (·.name == s)

theorem ofName?_name (k : ViolationKind) : ofName? k.name = some k := by cases k <;> decide

def isWarning : ViolationKind → Bool
  | .missingWarned | .typeMismatchWarned | .unknownField => true
  | _ => false

end ViolationKind

/-- Which violations a view shows. -/
inductive Severity where
  | all
  | errors
  | warnings
  deriving DecidableEq, Repr

namespace Severity

def name : Severity → String
  | .all => "all"
  | .errors => "errors"
  | .warnings => "warnings"

def ofName? (s : String) : Option Severity := [all, errors, warnings].find? (·.name == s)

end Severity

structure Violation where
  document : String
  schema : String
  field : String
  kind : ViolationKind
  message : String
  expected : Option String := none
  actual : Option String := none
  deriving DecidableEq, Repr

namespace Violation

def isWarning (v : Violation) : Bool := v.kind.isWarning

def shownAt (severity : Severity) (v : Violation) : Bool :=
  match severity with
  | .all => true
  | .errors => !v.isWarning
  | .warnings => v.isWarning

end Violation

inductive ViolationFault where
  | missingEntry
  | unknownKind
  | notText
  deriving DecidableEq, Repr

structure StoredViolation where
  document : Value
  schema : Value
  field : Value
  kind : ViolationKind
  message : Value
  expected : Value
  actual : Value
  deriving Repr

namespace StoredViolation

def partOf (key : String) (m : Entries) : Except ViolationFault Value :=
  ((m.get? key).map .ok).getD (.error .missingEntry)

def kindOf (m : Entries) : Except ViolationFault ViolationKind :=
  match m.get? "kind" with
  | none => .error .missingEntry
  | some (.text s) => ((ViolationKind.ofName? s).map .ok).getD (.error .unknownKind)
  | some _ => .error .unknownKind

def ofEntries (m : Entries) : Except ViolationFault StoredViolation := do
  let document ← partOf "document_id" m
  let schema ← partOf "schema_id" m
  let field ← partOf "field_path" m
  let kind ← kindOf m
  let message ← partOf "message" m
  let expected := (m.get? "expected").getD .null
  let actual := (m.get? "actual").getD .null
  return { document, schema, field, kind, message, expected, actual }

def toEntries (v : StoredViolation) : Entries :=
  [(.text "document_id", v.document), (.text "schema_id", v.schema), (.text "field_path", v.field),
    (.text "kind", .text v.kind.name), (.text "message", v.message), (.text "expected", v.expected),
    (.text "actual", v.actual)]

def text? : Value → Option String
  | .text s => some s
  | _ => none

def optional? : Value → Option (Option String)
  | .null => some none
  | .text s => some (some s)
  | _ => none

def violation? (v : StoredViolation) : Option Violation := do
  let document ← text? v.document
  let schema ← text? v.schema
  let field ← text? v.field
  let message ← text? v.message
  let expected ← optional? v.expected
  let actual ← optional? v.actual
  return { document, schema, field, kind := v.kind, message, expected, actual }

end StoredViolation

namespace Violation

def stored (v : Violation) : StoredViolation :=
  let optional (s : Option String) : Value := (s.map .text).getD .null
  ⟨.text v.document, .text v.schema, .text v.field, v.kind, .text v.message, optional v.expected,
    optional v.actual⟩

def toEntries (v : Violation) : Entries := v.stored.toEntries

def ofEntries (m : Entries) : Except ViolationFault Violation := do
  match (← StoredViolation.ofEntries m).violation? with
  | some v => return v
  | none => throw .notText

end Violation
end VaultSchema
