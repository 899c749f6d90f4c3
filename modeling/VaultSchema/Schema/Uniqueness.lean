import VaultSchema.Schema.Constraint
import VaultSchema.Schema.SchemaSet

/-! Values that no two notes of a schema may share, compared by a canonical text. `UniqueValues`
gathers the notes that have each value; every note that joins others in having it issues a violation
for each of them anew. -/

set_option autoImplicit false

namespace VaultSchema

/-- The members of a sequence in the order of their canonical JSON texts. -/
def Value.ordered (items : List Value) : Except ValueFault (List Value) := do
  let keys ← collect (items.map (Json.write .canonical))
  return ((keys.zip items).mergeSort fun a b => decide (a.1 ≤ b.1)).map Prod.snd

/-- The text by which values are told apart. -/
def Value.uniqueKey : Value → Except ValueFault String
  | .scalar (.date d) => .ok d.text
  | .scalar (.moment m) => .ok m.text
  | .scalar .null => .ok "None"
  | .scalar s => Value.displayScalar s
  | .sequence _ items => do Json.write .spaced (.list (← Value.ordered items))
  | .mapping m => Json.write .spaced (.mapping m)

structure SharedValue where
  field : String
  key : String
  members : List String
  deriving DecidableEq, Repr

structure UniqueValues where
  shared : List SharedValue := []
  deriving DecidableEq, Repr

namespace UniqueValues

def members (seen : UniqueValues) (field key : String) : List String :=
  ((seen.shared.find? fun b => b.field == field && b.key == key).map (·.members)).getD []

def replaceMembers (field key : String) (members : List String) : List SharedValue → List SharedValue
  | [] => [⟨field, key, members⟩]
  | b :: rest =>
    if b.field == field && b.key == key then { b with members := members } :: rest
    else b :: replaceMembers field key members rest

def setMembers (seen : UniqueValues) (field key : String) (members : List String) : UniqueValues :=
  ⟨replaceMembers field key members seen.shared⟩

def duplicates (seen : UniqueValues) : List SharedValue := seen.shared.filter (1 < ·.members.length)

/-- One violation for each of the notes that share a value, naming all others. -/
def violations (schema field shown : String) (members : List String) : List Violation :=
  members.map fun m =>
    let others := ", ".intercalate (members.filter (· != m))
    ⟨m, schema, field, .duplicateValue,
      s!"Duplicate value: {field} \"{shown}\" is also used by {others}", some "unique value", some shown⟩

/-- One field of a note. What could be recorded before a fault stays recorded. -/
def observeField (seen : UniqueValues) (schema document field : String) (value : Value) :
    UniqueValues × Except ValueFault (List Violation) :=
  match value.uniqueKey with
  | .error e => (seen, .error e)
  | .ok key =>
    let old := seen.members field key
    if old.contains document then (seen, .ok [])
    else
      let members := old ++ [document]
      let seen := seen.setMembers field key members
      if members.length ≤ 1 then (seen, .ok [])
      else (seen, do return violations schema field (← value.display) members)

def observeFields (seen : UniqueValues) (schema document : String) (keys : FoldedKeys) :
    List FieldGroup → UniqueValues × Except ValueFault (List Violation)
  | [] => (seen, .ok [])
  | g :: rest =>
    match keys.value? g.name with
    | none | some .null => observeFields seen schema document keys rest
    | some value =>
      match observeField seen schema document g.name value with
      | (seen, .error e) => (seen, .error e)
      | (seen, .ok first) =>
        let (seen, others) := observeFields seen schema document keys rest
        (seen, do return first ++ (← others))

def observe (seen : UniqueValues) (s : Schema) (document : String) (frontmatter : Option Entries) :
    UniqueValues × Except ValueFault (List Violation) :=
  match s.uniqueGroups, frontmatter.getD [] with
  | [], _ | _, [] => (seen, .ok [])
  | groups, m =>
    match FoldedKeys.ofEntries m with
    | .error e => (seen, .error e)
    | .ok keys => observeFields seen s.id document keys groups

end UniqueValues
end VaultSchema
