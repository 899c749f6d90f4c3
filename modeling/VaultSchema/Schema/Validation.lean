import VaultSchema.Schema.Constraint
import VaultSchema.Schema.Matching
import VaultSchema.Schema.SchemaSet

/-! Validation of a note's frontmatter. For each group of declarations variants whose conditions
fail are dropped, and the group is passed over when none is left; then presence is checked, then the
type, and the constraints of the first variant whose type the value has. Keys of the note itself are
looked up without regard to case, keys inside values exactly. -/

set_option autoImplicit false

namespace VaultSchema

/-- Keys that hosts put into frontmatter, never reported as undeclared. -/
def isHostKey (key : Scalar) : Bool := key.sameKey (.text "position")

def nativeProperties : List String := ["aliases", "tags", "cssclasses", "cssclass"]

namespace Registry

def conditionsHold (spec : FieldSpec) (keys : FoldedKeys) : Check Bool := do
  let results ← spec.conditions.mapM fun c =>
    Check.ofValue (c.operator.evaluate ((keys.value? c.field).getD .null) c.value)
  return spec.conditionLogic.verdict results

def activeVariants (g : FieldGroup) (keys : FoldedKeys) : Check FieldGroup := do
  let kept ← g.variants.filterM fun s => conditionsHold s keys
  return ⟨g.name, kept⟩

def absenceFindings (g : FieldGroup) (path : String) : List Finding :=
  if g.isRequired then [⟨path, .missingRequired, s!"Missing required field: {path}", none, none⟩]
  else if g.isWarned then
    [⟨path, .missingWarned, s!"Missing recommended field: {path}", none, none⟩]
  else []

def firstMisfits (r : Registry) (m : Entries) (variants : List FieldSpec) :
    Option (String × List String) :=
  variants.findSome? fun s => do
    let t ← r.resolve? s.type
    match r.misfits m t with
    | [] => none
    | reasons => some (s.type.name, reasons)

def mismatchMessage (r : Registry) (value : Value) (g : FieldGroup) (path : String) : String :=
  let plain := s!"Type mismatch: {path} (expected {g.expectedTypes}, got {value.kindName})"
  match value with
  | .mapping m =>
    match r.firstMisfits m g.variants with
    | some (name, reasons) => s!"Type mismatch: {path} (expected {name}): " ++ "; ".intercalate reasons
    | none => plain
  | _ => plain

def mismatch (r : Registry) (value : Value) (g : FieldGroup) (path : String) : Finding :=
  ⟨path, if g.isWarned then .typeMismatchWarned else .typeMismatch, r.mismatchMessage value g path,
    some g.expectedTypes, some value.kindName⟩

def elementMismatch (r : Registry) (value : Value) (type : FieldType) (path : String) : Finding :=
  let plain := s!"Array element type mismatch: {path} (expected {type.name}, got {value.kindName})"
  let message :=
    match r.resolve? type, value with
    | some t, .mapping m =>
      match r.misfits m t with
      | [] => plain
      | reasons =>
        s!"Array element type mismatch: {path} (expected {type.name}): " ++ "; ".intercalate reasons
    | _, _ => plain
  ⟨path, .typeMismatch, message, some type.name, some value.kindName⟩

def plainFindings (value : Value) (spec : FieldSpec) (path : String) : Check (List Finding) :=
  match spec.type, value with
  | .primitive .string, .text s => ((spec.stringConstraints.map (·.findings path s)).getD (.ok []))
  | .primitive .number, .scalar n => ((spec.numberConstraints.map (·.findings path n)).getD (.ok []))
  | .primitive .date, v => ((spec.dateConstraints.map (·.findings path v)).getD (.ok []))
  | .primitive .array, .sequence _ items =>
    ((spec.arrayConstraints.map (·.findings path items)).getD (.ok []))
  | _, _ => .ok []

def crossFindings (value : Value) (spec : FieldSpec) (path : String) (top : FoldedKeys) :
    Check (List Finding) :=
  match spec.crossField with
  | some c => c.findings path value top
  | none => .ok []

def strayKeys (m : Entries) (t : NamedType) (path : String) : Check (List Finding) :=
  (m.filter fun e => !(t.fields.any fun f => e.1.sameKey (.text f.name))).mapM fun e => do
    let key ← Check.ofValue e.1.spelling
    return ⟨s!"{path}.{key}", .unknownField,
      s!"Unknown field: {path}.{key} (not defined in type \"{t.name}\")", none, none⟩

/-- The type of an array's elements, where a value is an array by its type. -/
def elementsToEnter (value : Value) (spec : FieldSpec) : Option (FieldType × List Value) :=
  match spec.type, value, spec.elementType with
  | .primitive .array, .sequence _ items, some e => some (e, items)
  | _, _, _ => none

mutual

def valueFindings (r : Registry) (top : FoldedKeys) (g : FieldGroup) (path : String) (value : Value) :
    Check (List Finding) :=
  match r.variant? value g.variants with
  | none => .ok [r.mismatch value g path]
  | some spec => do
    let own ← plainFindings value spec path
    let elements ←
      match value, elementsToEnter value spec with
      | .sequence _ items, some (e, _) => r.elementFindings top e path 0 items
      | _, _ => pure []
    let inner ←
      match value, r.resolve? spec.type with
      | .mapping m, some t => r.objectFindings top t path m
      | _, _ => pure []
    let cross ← crossFindings value spec path top
    return own ++ elements ++ inner ++ cross
termination_by (sizeOf value, 1)

def elementFindings (r : Registry) (top : FoldedKeys) (type : FieldType) (path : String) (position : Nat)
    (items : List Value) : Check (List Finding) :=
  match items with
  | [] => .ok []
  | v :: rest => do
    let place := s!"{path}[{position}]"
    let own ←
      if r.fits v type then
        match v, r.resolve? type with
        | .mapping m, some t => r.objectFindings top t place m
        | _, _ => pure []
      else pure [r.elementMismatch v type place]
    return own ++ (← r.elementFindings top type path (position + 1) rest)
termination_by (sizeOf items, 0)

def objectFindings (r : Registry) (top : FoldedKeys) (t : NamedType) (path : String) (m : Entries) :
    Check (List Finding) := do
  let stray ← strayKeys m t path
  let keys ← Check.ofValue (FoldedKeys.ofEntries m)
  let inner ← t.groups.mapM fun g => do
    let place := s!"{path}.{g.name}"
    let active ← activeVariants g keys
    if active.variants.isEmpty then return []
    else
      match present : Entries.get? g.name m with
      | none => return absenceFindings active place
      | some v =>
        have := Entries.sizeOf_get?_lt present
        r.valueFindings top active place v
  return stray ++ inner.flatten
termination_by (sizeOf m, 0)

end

def groupFindings (r : Registry) (top : FoldedKeys) (g : FieldGroup) : Check (List Finding) := do
  let active ← activeVariants g top
  if active.variants.isEmpty then return []
  else
    match top.value? g.name with
    | none => return absenceFindings active g.name
    | some v => r.valueFindings top active g.name v

def undeclaredKeys (s : Schema) (m : Entries) : Check (List Finding) := do
  let names ← (m.filter fun e => !isHostKey e.1).mapM fun e => Check.ofValue e.1.spelling
  return (names.filter fun n => !s.declares n).map fun n =>
    ⟨n, .unknownField, s!"Unknown field: {n} (not defined in schema)", none, none⟩

def findings (r : Registry) (s : Schema) (m : Entries) (checkUnknown : Bool) : Check (List Finding) := do
  let top ← Check.ofValue (FoldedKeys.ofEntries m)
  let declared ← s.groups.mapM (r.groupFindings top)
  let unknown ← if checkUnknown then undeclaredKeys s m else pure []
  return declared.flatten ++ unknown

/-- The violations of a schema by a note; a note without frontmatter is like one with none of the
fields. -/
def validate (r : Registry) (document : String) (frontmatter : Option Entries) (s : Schema)
    (checkUnknown : Bool) : Check (List Violation) := do
  return (← r.findings s (frontmatter.getD []) checkUnknown).map (·.stamp document s.id)

end Registry

/-- Without reports of undeclared keys that are allowed, in whatever case. -/
def dropAllowed (allowed : List String) (vs : List Violation) : List Violation :=
  vs.filter fun v =>
    v.kind != .unknownField || !((allowed.map Text.lower).contains (Text.lower v.field))

end VaultSchema
