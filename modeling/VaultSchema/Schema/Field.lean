import VaultSchema.Schema.FieldType
import VaultSchema.Schema.Operator
import VaultSchema.Text.Basic

/-! Declarations of fields. Declarations of one name are the variants of a union and form a group,
in which the first variant whose type a value has decides about the value. -/

set_option autoImplicit false

namespace VaultSchema

structure StringConstraints where
  pattern : Option String := none
  minLength : Option Nat := none
  maxLength : Option Nat := none
  deriving DecidableEq, Repr

structure NumberConstraints where
  min : Option Binary64 := none
  max : Option Binary64 := none
  deriving DecidableEq, Repr

/-- Bounds as they were written. -/
structure DateConstraints where
  min : Option String := none
  max : Option String := none
  deriving DecidableEq, Repr

structure ArrayConstraints where
  minItems : Option Nat := none
  maxItems : Option Nat := none
  contains : List String := []
  deriving DecidableEq, Repr

structure CrossFieldConstraint where
  operator : Operator
  field : String
  deriving DecidableEq, Repr

structure FieldCondition where
  field : String
  operator : Operator
  value : String
  deriving DecidableEq, Repr

inductive ConditionLogic where
  | all
  | any
  deriving DecidableEq, Repr

namespace ConditionLogic

def name : ConditionLogic → String
  | .all => "and"
  | .any => "or"

def ofName? (s : String) : Option ConditionLogic := [all, any].find? (·.name == s)

/-- The verdict on conditions of which each holds or not; without conditions it is positive. -/
def verdict (logic : ConditionLogic) (results : List Bool) : Bool :=
  match logic with
  | .all => results.all id
  | .any => results.isEmpty || results.any id

end ConditionLogic

structure FieldSpec where
  name : String
  type : FieldType
  required : Bool := false
  warn : Bool := false
  unique : Bool := false
  conditions : List FieldCondition := []
  conditionLogic : ConditionLogic := .all
  elementType : Option FieldType := none
  stringConstraints : Option StringConstraints := none
  numberConstraints : Option NumberConstraints := none
  dateConstraints : Option DateConstraints := none
  arrayConstraints : Option ArrayConstraints := none
  crossField : Option CrossFieldConstraint := none
  deriving DecidableEq, Repr

namespace FieldSpec

def types (f : FieldSpec) : List FieldType := f.type :: f.elementType.toList

def typeLabel (f : FieldSpec) : String :=
  match f.type, f.elementType with
  | .primitive .array, some e => e.name ++ "[]"
  | t, _ => t.name

/-- The entries under which a declaration is written down again; what is not set is left out. -/
def authored (f : FieldSpec) : Entries :=
  let mark (key : String) (set : Bool) : Entries := if set then [(.text key, .bool true)] else []
  [(.text "name", .text f.name), (.text "type", .text f.type.name)]
    ++ mark "required" f.required ++ mark "warn" f.warn ++ mark "unique" f.unique
    ++ f.elementType.toList.map fun e => (.text "array_element_type", .text e.name)

end FieldSpec

structure FieldGroup where
  name : String
  variants : List FieldSpec
  deriving DecidableEq, Repr

namespace FieldGroup

def isRequired (g : FieldGroup) : Bool := g.variants.any (·.required)

def isWarned (g : FieldGroup) : Bool := !g.isRequired && g.variants.any (·.warn)

def isUnique (g : FieldGroup) : Bool := g.variants.any (·.unique)

def expectedTypes (g : FieldGroup) : String := " | ".intercalate (g.variants.map (·.type.name))

def ofFields (fields : List FieldSpec) : List FieldGroup :=
  (Text.distinct (fields.map (·.name))).map fun n => ⟨n, fields.filter (·.name == n)⟩

end FieldGroup
end VaultSchema
