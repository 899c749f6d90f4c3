import VaultSchema.Pattern.Reading
import VaultSchema.Pattern.Search
import VaultSchema.Schema.Field
import VaultSchema.Schema.Violation
import VaultSchema.Value.FoldedKeys

/-! Checks of constraints on values that are already known to be of the right type. What is broken
in a definition counts as absent: a pattern that cannot be read, a bound that is no date. -/

set_option autoImplicit false

namespace VaultSchema

/-- A deviation found in a note, before note and schema are named. -/
structure Finding where
  field : String
  kind : ViolationKind
  message : String
  expected : Option String := none
  actual : Option String := none
  deriving DecidableEq, Repr

def Finding.stamp (document schema : String) (f : Finding) : Violation :=
  ⟨document, schema, f.field, f.kind, f.message, f.expected, f.actual⟩

inductive CheckFault where
  | comparison (fault : ComparisonFault)
  | pattern (fault : Pattern.PatternFault)
  deriving DecidableEq, Repr

abbrev Check (α : Type) := Except CheckFault α

namespace Check

def ofValue {α : Type} (x : Except ValueFault α) : Check α :=
  x.mapError fun e => .comparison (.value e)

end Check

/-- A text in which a pattern does not occur. A pattern that cannot be read occurs everywhere. -/
def patternMissing (pattern text : String) : Check Bool :=
  match Pattern.read pattern with
  | .ok node => .ok !(node.occursIn text)
  | .error .malformed => .ok false
  | .error f => .error (.pattern f)

def atLeast (path what measure bound actual : String) (kind : ViolationKind) : Finding :=
  ⟨path, kind, s!"{what}: {path} {measure} (min: {bound})", some s!">= {bound}", some actual⟩

def atMost (path what measure bound actual : String) (kind : ViolationKind) : Finding :=
  ⟨path, kind, s!"{what}: {path} {measure} (max: {bound})", some s!"<= {bound}", some actual⟩

/-- A bound on a count that is not kept. Bounds of any size can be declared, but not all be written. -/
def countFindings (bound : Option Nat) (missed : Nat → Bool) (report : String → Finding) :
    Check (List Finding) :=
  (bound.toList.filter missed).mapM fun (n : Nat) => do return report (← Check.ofValue (integerText n))

def StringConstraints.patternFindings (c : StringConstraints) (path text : String) :
    Check (List Finding) :=
  match c.pattern with
  | none | some "" => .ok []
  | some p => do
    if ← patternMissing p text then
      return [⟨path, .patternMismatch, s!"Pattern mismatch: {path} does not match /{p}/", some p,
        some text⟩]
    else return []

def StringConstraints.findings (c : StringConstraints) (path text : String) : Check (List Finding) := do
  let mismatch ← c.patternFindings path text
  let count := text.length
  let measure := s!"has {count} chars"
  let short ← countFindings c.minLength (count < ·) fun bound =>
    atLeast path "String too short" measure bound s!"{count}" .stringTooShort
  let long ← countFindings c.maxLength (· < count) fun bound =>
    atMost path "String too long" measure bound s!"{count}" .stringTooLong
  return mismatch ++ short ++ long

def scalarBelow (a b : Scalar) : Bool :=
  match a.rank?, b.rank? with
  | some x, some y => Binary64.rankLess x y
  | _, _ => false

def NumberConstraints.findings (c : NumberConstraints) (path : String) (value : Scalar) :
    Check (List Finding) := do
  let shown ← Check.ofValue (Value.displayScalar value)
  let measure := s!"is {shown}"
  let small ← (c.min.toList.filter fun b => scalarBelow value (.float b)).mapM fun b => do
    let bound ← Check.ofValue (Value.displayFloat b)
    return atLeast path "Number too small" measure bound shown .numberTooSmall
  let large ← (c.max.toList.filter fun b => scalarBelow (.float b) value).mapM fun b => do
    let bound ← Check.ofValue (Value.displayFloat b)
    return atMost path "Number too large" measure bound shown .numberTooLarge
  return small ++ large

def boundInstant? (bound : Option String) : Option (String × Binary64) := do
  let text ← bound
  if text.isEmpty then none
  else
    let t ← (Value.text text).timestamp?
    some (text, t)

def DateConstraints.findings (c : DateConstraints) (path : String) (value : Value) :
    Check (List Finding) :=
  match value.timestamp? with
  | none => .ok []
  | some t =>
    match Moment.dateOfTimestamp? t with
    | none => .error (.comparison (.value .yearOutOfRange))
    | some day =>
      let shown := day.text
      let measure := s!"is {shown}"
      let early := (boundInstant? c.min).toList.filter fun b => t.less b.2
      let late := (boundInstant? c.max).toList.filter fun b => b.2.less t
      .ok (early.map (fun b => atLeast path "Date too early" measure b.1 shown .dateTooEarly)
        ++ late.map (fun b => atMost path "Date too late" measure b.1 shown .dateTooLate))

def ArrayConstraints.lackingFindings (c : ArrayConstraints) (path : String) (items : List Value) :
    Check (List Finding) :=
  if c.contains.isEmpty then .ok []
  else do
    let present ← Check.ofValue (Value.displays items)
    return (c.contains.filter fun s => !present.contains s).map fun s =>
      ⟨path, .arrayMissingValue, s!"Array missing value: {path} must contain \"{s}\"", some s, none⟩

def ArrayConstraints.findings (c : ArrayConstraints) (path : String) (items : List Value) :
    Check (List Finding) := do
  let count := items.length
  let measure := s!"has {count} items"
  let few ← countFindings c.minItems (count < ·) fun bound =>
    atLeast path "Array too small" measure bound s!"{count}" .arrayTooFew
  let many ← countFindings c.maxItems (· < count) fun bound =>
    atMost path "Array too large" measure bound s!"{count}" .arrayTooMany
  return few ++ many ++ (← c.lackingFindings path items)

/-- Two fields of one note compared; an absent or null field satisfies everything. -/
def CrossFieldConstraint.findings (c : CrossFieldConstraint) (path : String) (value : Value)
    (keys : FoldedKeys) : Check (List Finding) :=
  match keys.value? c.field with
  | none | some .null => .ok []
  | some other => do
    if ← (c.operator.compare value other).mapError .comparison then return []
    let shown ← Check.ofValue value.display
    let phrase := c.operator.phrase
    return [⟨path, .crossFieldViolation,
      s!"Cross-field constraint failed: {path} must be {phrase} {c.field}",
      some s!"{phrase} {c.field}", some shown⟩]

end VaultSchema
