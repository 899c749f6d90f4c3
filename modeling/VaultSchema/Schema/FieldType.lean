import VaultSchema.Value.Basic
import VaultSchema.Text.Digit

set_option autoImplicit false

namespace VaultSchema

inductive PrimitiveKind where
  | string
  | number
  | boolean
  | date
  | array
  | object
  | null
  | unknown
  deriving DecidableEq, Repr

namespace PrimitiveKind

def all : List PrimitiveKind := [.string, .number, .boolean, .date, .array, .object, .null, .unknown]

def name : PrimitiveKind → String
  | .string => "string"
  | .number => "number"
  | .boolean => "boolean"
  | .date => "date"
  | .array => "array"
  | .object => "object"
  | .null => "null"
  | .unknown => "unknown"

def ofName? (s : String) : Option PrimitiveKind := all.find? (·.name == s)

theorem ofName?_name (k : PrimitiveKind) : ofName? k.name = some k := by cases k <;> decide

end PrimitiveKind

/-- Four digits, two and two with hyphens between them, and perhaps a line end. -/
def isDateText (s : String) : Bool :=
  match s.toList with
  | [y₁, y₂, y₃, y₄, '-', m₁, m₂, '-', d₁, d₂] =>
    [y₁, y₂, y₃, y₄, m₁, m₂, d₁, d₂].all Text.isDecimalDigit
  | [y₁, y₂, y₃, y₄, '-', m₁, m₂, '-', d₁, d₂, '\n'] =>
    [y₁, y₂, y₃, y₄, m₁, m₂, d₁, d₂].all Text.isDecimalDigit
  | _ => false

/-- A value is of a primitive kind. Only null is of kind null; every other value is of the unknown
kind besides its own. -/
def PrimitiveKind.accepts (k : PrimitiveKind) : Value → Bool
  | .null => k == .null
  | .scalar (.bool _) => k == .boolean || k == .unknown
  | .scalar (.int _) | .scalar (.float _) => k == .number || k == .unknown
  | .scalar (.text s) => k == .string || k == .unknown || (k == .date && isDateText s)
  | .scalar (.date _) | .scalar (.moment _) => k == .date || k == .unknown
  | .scalar (.bytes _) => k == .unknown
  | .sequence _ _ => k == .array || k == .unknown
  | .mapping _ => k == .object || k == .unknown

/-- The kind that a value suggests for its field; a text that looks like a date suggests a date. -/
def Value.suggestedKind : Value → PrimitiveKind
  | .scalar (.bool _) => .boolean
  | .scalar (.int _) | .scalar (.float _) => .number
  | .scalar (.text s) => if isDateText s then .date else .string
  | .scalar (.date _) | .scalar (.moment _) => .date
  | .scalar .null | .scalar (.bytes _) => .unknown
  | .sequence _ _ => .array
  | .mapping _ => .object

theorem PrimitiveKind.accepts_null (k : PrimitiveKind) : k.accepts .null = (k == .null) := rfl

theorem Value.suggestedKind_accepts (v : Value) (h : v.isNull = false) :
    v.suggestedKind.accepts v = true := by
  cases v with
  | scalar s =>
    cases s with
    | null => simp [Value.isNull] at h
    | text s => by_cases d : isDateText s <;> simp [Value.suggestedKind, PrimitiveKind.accepts, d]
    | _ => rfl
  | _ => rfl

inductive FieldType where
  | primitive (kind : PrimitiveKind)
  | named (name : String)
  deriving DecidableEq, Repr

namespace FieldType

def name : FieldType → String
  | .primitive k => k.name
  | .named n => n

/-- A name that is no primitive kind refers to a declared type. -/
def ofName (s : String) : FieldType :=
  match PrimitiveKind.ofName? s with
  | some k => .primitive k
  | none => .named s

def isPrimitive : FieldType → Bool
  | .primitive _ => true
  | .named _ => false

def reference? : FieldType → Option String
  | .primitive _ => none
  | .named n => some n

theorem ofName_primitive (k : PrimitiveKind) : ofName k.name = .primitive k := by
  simp [ofName, PrimitiveKind.ofName?_name]

end FieldType
end VaultSchema
