import VaultSchema.Definition.Lenient
import VaultSchema.Schema.SchemaSet

set_option autoImplicit false

namespace VaultSchema.Definition

open Checked Lenient

def operator : Value → Checked Operator
  | .text s =>
    match Operator.ofName? s with
    | some o => .good o
    | none => fail .unknownName
  | _ => fail .unknownName

def conditionLogic : Value → Checked ConditionLogic
  | .text s =>
    match ConditionLogic.ofName? s with
    | some l => .good l
    | none => fail .unknownWord
  | _ => fail .unknownWord

def stringConstraints (m : Entries) : Checked StringConstraints :=
  StringConstraints.mk <$> optional m "pattern" none (orNull text)
    <*> optional m "min_length" none (orNull natural)
    <*> optional m "max_length" none (orNull natural)

def numberConstraints (m : Entries) : Checked NumberConstraints :=
  NumberConstraints.mk <$> optional m "min" none (orNull float)
    <*> optional m "max" none (orNull float)

def dateConstraints (m : Entries) : Checked DateConstraints :=
  DateConstraints.mk <$> optional m "min" none (orNull dateText)
    <*> optional m "max" none (orNull dateText)

/-- Only the members of a list proper are taken by what they show. -/
def containedTexts : Value → Checked (List String)
  | .sequence .list items =>
    if items.any fun v => !v.isNull && v.display matches .error .tooManyDigits then fail .refused
    else each shownText items
  | v => list text v

def arrayConstraints (m : Entries) : Checked ArrayConstraints :=
  ArrayConstraints.mk <$> optional m "min_items" none (orNull natural)
    <*> optional m "max_items" none (orNull natural)
    <*> optional m "contains" [] containedTexts

def crossField (m : Entries) : Checked CrossFieldConstraint :=
  CrossFieldConstraint.mk <$> required m "operator" operator <*> required m "field" text

def fieldCondition (m : Entries) : Checked FieldCondition :=
  FieldCondition.mk <$> required m "field" text <*> optional m "operator" .equals operator
    <*> optional m "value" "" shownText

/-- An empty name stands for no type. -/
def elementType (v : Value) : Checked (Option FieldType) :=
  map (fun s => s.bind fun n => if n.isEmpty then none else some (.ofName n)) (orNull text v)

def field (m : Entries) : Checked FieldSpec :=
  FieldSpec.mk <$> required m "name" nonemptyText
    <*> map FieldType.ofName (optional m "type" "string" text)
    <*> optional m "required" false truth
    <*> optional m "warn" false truth
    <*> optional m "unique" false truth
    <*> optional m "conditions" [] (list (mapping fieldCondition))
    <*> optional m "condition_logic" .all conditionLogic
    <*> optional m "array_element_type" none elementType
    <*> optional m "string_constraints" none (orNull (mapping stringConstraints))
    <*> optional m "number_constraints" none (orNull (mapping numberConstraints))
    <*> optional m "date_constraints" none (orNull (mapping dateConstraints))
    <*> optional m "array_constraints" none (orNull (mapping arrayConstraints))
    <*> optional m "cross_field_constraint" none (orNull (mapping crossField))

def fields (m : Entries) : Checked (List FieldSpec) :=
  optionalOf m ["fields", "field_specs"] [] (list (mapping field))

def namedType (m : Entries) : Checked NamedType :=
  NamedType.mk <$> required m "name" nonemptyText <*> fields m

def propertyCondition (m : Entries) : Checked PropertyCondition :=
  PropertyCondition.mk <$> required m "property" text <*> optional m "operator" .equals operator
    <*> optional m "value" "" shownText

def propertyFilter (m : Entries) : Checked PropertyFilter :=
  PropertyFilter.mk <$> optional m "modified_after" none (orNull dateText)
    <*> optional m "modified_before" none (orNull dateText)
    <*> optional m "created_after" none (orNull dateText)
    <*> optional m "created_before" none (orNull dateText)
    <*> optional m "has_property" none (orNull text)
    <*> optional m "not_has_property" none (orNull text)
    <*> optional m "conditions" [] (list (mapping propertyCondition))

def schema (m : Entries) : Checked Schema :=
  (fun id name query enabled fields filter => { id, name, query, enabled, fields, filter })
    <$> required m "id" nonemptyText
    <*> optional m "name" "" text
    <*> optional m "query" "" text
    <*> optional m "enabled" true truth
    <*> fields m
    <*> optional m "property_filter" none (orNull (mapping propertyFilter))

def definitions (m : Entries) : Checked Definitions :=
  Definitions.mk <$> optionalOf m ["types", "custom_types", "customTypes"] []
      (list (mapping namedType))
    <*> optionalOf m ["schemas", "schema_mappings", "schemaMappings"] [] (list (mapping schema))

end Definition

inductive LoadFault where
  | shape (problems : List Problem)
  | definition (fault : DefinitionFault)
  | value (fault : ValueFault)
  deriving DecidableEq, Repr

def LoadFault.message : LoadFault → Option String
  | .shape _ => some "Invalid schema definitions"
  | .definition f => some f.message
  | .value _ => none

def SchemaSet.load (content : Entries) : Except LoadFault SchemaSet :=
  match Definition.definitions content with
  | .bad problems => .error (.shape problems)
  | .broken fault => .error (.value fault)
  | .good d => d.check.mapError .definition

end VaultSchema
