import VaultSchema.Schema.Registry
import VaultSchema.Text.Case

/-! Schemas: fields bound to a query that selects notes. `Definitions.check` makes a set of schemas
in which every name resolves, names and identifiers are not repeated, and fields are compared by
order or equality only. -/

set_option autoImplicit false

namespace VaultSchema

structure PropertyCondition where
  property : String
  operator : Operator
  value : String
  deriving DecidableEq, Repr

/-- What a note must satisfy besides the query, all parts together. -/
structure PropertyFilter where
  modifiedAfter : Option String := none
  modifiedBefore : Option String := none
  createdAfter : Option String := none
  createdBefore : Option String := none
  hasProperty : Option String := none
  notHasProperty : Option String := none
  conditions : List PropertyCondition := []
  deriving DecidableEq, Repr

structure Schema where
  id : String
  query : String
  fields : List FieldSpec
  name : String := ""
  enabled : Bool := true
  filter : Option PropertyFilter := none
  deriving DecidableEq, Repr

namespace Schema

def groups (s : Schema) : List FieldGroup := FieldGroup.ofFields s.fields

def uniqueGroups (s : Schema) : List FieldGroup := s.groups.filter (·.isUnique)

def hasUniqueFields (s : Schema) : Bool := s.groups.any (·.isUnique)

def declares (s : Schema) (name : String) : Bool :=
  s.fields.any fun f => Text.lower f.name == Text.lower name

end Schema

structure SchemaSet where
  schemas : List Schema := []
  registry : Registry := {}
  deriving DecidableEq, Repr

namespace SchemaSet

def find? (set : SchemaSet) (id : String) : Option Schema := set.schemas.find? (·.id == id)

def enabled (set : SchemaSet) : List Schema := set.schemas.filter (·.enabled)

end SchemaSet

structure Definitions where
  types : List NamedType := []
  schemas : List Schema := []
  deriving DecidableEq, Repr

inductive DefinitionPlace where
  | type (name : String)
  | schema (id : String)
  deriving DecidableEq, Repr

def DefinitionPlace.text : DefinitionPlace → String
  | .type n => s!"type '{n}'"
  | .schema n => s!"schema '{n}'"

inductive DefinitionFault where
  | duplicateType (name : String)
  | duplicateSchema (id : String)
  | undefinedType (place : DefinitionPlace) (field type : String)
  | notComparison (place : DefinitionPlace) (field : String) (operator : Operator)
  deriving DecidableEq, Repr

def DefinitionFault.message : DefinitionFault → String
  | .duplicateType n => s!"Duplicate named type '{n}'"
  | .duplicateSchema n => s!"Duplicate schema id '{n}'"
  | .undefinedType p f t => s!"{p.text}: Field '{f}' references undefined type '{t}'"
  | .notComparison p f o => s!"{p.text}: Field '{f}' uses '{o.name}' in a cross-field constraint; "
      ++ "only comparison operators are allowed"

namespace Definitions

def checkComparisons (place : DefinitionPlace) (fields : List FieldSpec) :
    Except DefinitionFault Unit :=
  fields.forM fun f =>
    match f.crossField with
    | some c => if c.operator.isComparison then .ok () else .error (.notComparison place f.name c.operator)
    | none => .ok ()

def checkReferences (r : Registry) (place : DefinitionPlace) (fields : List FieldSpec) :
    Except DefinitionFault Unit :=
  match r.undefined? fields with
  | some (f, t) => .error (.undefinedType place f.name t)
  | none => .ok ()

def register (r : Registry) : List NamedType → Except DefinitionFault Registry
  | [] => .ok r
  | t :: rest => do
    checkComparisons (.type t.name) t.fields
    if r.has t.name then .error (.duplicateType t.name) else register ⟨r.types ++ [t]⟩ rest

/-- A schema without a name goes by its identifier. -/
def named (s : Schema) : Schema := { s with name := if s.name.isEmpty then s.id else s.name }

def checkSchemas (r : Registry) (seen : List String) : List Schema → Except DefinitionFault (List Schema)
  | [] => .ok []
  | s :: rest => do
    if seen.contains s.id then .error (.duplicateSchema s.id)
    else
      checkComparisons (.schema s.id) s.fields
      checkReferences r (.schema s.id) s.fields
      return named s :: (← checkSchemas r (s.id :: seen) rest)

/-- Types are registered before any reference is looked at, and all types come before schemas. -/
def check (d : Definitions) : Except DefinitionFault SchemaSet := do
  let r ← register {} d.types
  r.types.forM fun t => checkReferences r (.type t.name) t.fields
  return ⟨← checkSchemas r [] d.schemas, r⟩

end Definitions
end VaultSchema
