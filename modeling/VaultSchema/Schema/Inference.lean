import VaultSchema.Schema.Validation

/-! Declarations suggested by notes. From one note, a template, every key becomes a required field.
From several notes, keys are counted: those in nearly all notes become required fields, those in a
fair share of them optional ones. -/

set_option autoImplicit false

namespace VaultSchema.Inference

def widgetKind? : String → Option PrimitiveKind
  | "text" => some .string
  | "number" => some .number
  | "checkbox" => some .boolean
  | "date" | "datetime" => some .date
  | "tags" | "aliases" | "multitext" => some .array
  | _ => none

def templateKind (widgets : List (String × String)) (key : Scalar) (value : Value) : PrimitiveKind :=
  match value.suggestedKind, key with
  | .unknown, .text name =>
    ((widgets.find? (·.1 == name)).bind fun w => widgetKind? w.2).getD .unknown
  | k, _ => k

def fromTemplate (frontmatter : Entries) (widgets : List (String × String)) :
    Except ValueFault (List FieldSpec) :=
  collect <| (frontmatter.filter fun e => !isHostKey e.1).map fun (key, value) => do
    let name ← key.spelling
    return { name, type := .primitive (templateKind widgets key value), required := true }

structure Occurrence where
  name : String
  kind : PrimitiveKind
  shown : String
  deriving DecidableEq, Repr

def occurrence (key : Scalar) (value : Value) : Except ValueFault Occurrence := do
  let name ← key.spelling
  let shown ← value.display
  return ⟨name, value.suggestedKind, shown⟩

def occurrences (notes : List Entries) : Except ValueFault (List Occurrence) :=
  collect <| (notes.flatten.filter fun e => !isHostKey e.1).map fun (key, value) => occurrence key value

structure Frequency where
  name : String
  count : Nat
  total : Nat
  kinds : List (PrimitiveKind × Nat)
  samples : List String
  deriving DecidableEq, Repr

namespace Frequency

def share (f : Frequency) : Binary64 := .ofRatio false f.count f.total

def mostFrequent : List (PrimitiveKind × Nat) → Option (PrimitiveKind × Nat)
  | [] => none
  | k :: rest =>
    match mostFrequent rest with
    | some l => if k.2 < l.2 then some l else some k
    | none => some k

def dominantKind (f : Frequency) : PrimitiveKind :=
  ((mostFrequent (f.kinds.filter (·.1 != .unknown))).map Prod.fst).getD .unknown

def ofOccurrences (total sampleLimit : Nat) (name : String) (os : List Occurrence) : Frequency :=
  { name, total
    count := os.length
    kinds := (Text.distinct (os.map (·.kind))).map fun k => (k, (os.filter (·.kind == k)).length)
    samples := (Text.distinct ((os.map (·.shown)).filter (!·.isEmpty))).take sampleLimit }

end Frequency

/-- The frequencies of all keys, greatest first; equally frequent keys in the order in which they
were seen. -/
def frequencies (total sampleLimit : Nat) (os : List Occurrence) : List Frequency :=
  ((Text.distinct (os.map (·.name))).map fun n =>
    Frequency.ofOccurrences total sampleLimit n (os.filter (·.name == n))).mergeSort
      fun f g => decide (g.count ≤ f.count)

inductive Standing where
  | required
  | optional
  | excluded
  deriving DecidableEq, Repr

def standing (required optional : Binary64) (f : Frequency) : Standing :=
  if required.lessOrEqual f.share then .required
  else if optional.lessOrEqual f.share then .optional
  else .excluded

structure Suggestion where
  analyzed : Nat := 0
  frequencies : List Frequency := []
  fields : List FieldSpec := []
  required : List String := []
  optional : List String := []
  excluded : List String := []
  deriving DecidableEq, Repr

structure Limits where
  required : Binary64 := .ofRatio false 95 100
  optional : Binary64 := .ofRatio false 25 100
  samples : Nat := 5
  deriving DecidableEq, Repr

def suggestedField? (limits : Limits) (f : Frequency) : Option FieldSpec :=
  match standing limits.required limits.optional f with
  | .required => some { name := f.name, type := .primitive f.dominantKind, required := true }
  | .optional => some { name := f.name, type := .primitive f.dominantKind }
  | .excluded => none

def fromNotes (notes : List Entries) (limits : Limits) : Except ValueFault Suggestion := do
  let os ← occurrences notes
  let found := frequencies notes.length limits.samples os
  let named (s : Standing) : List String :=
    (found.filter (standing limits.required limits.optional · == s)).map (·.name)
  return {
    analyzed := notes.length
    frequencies := found
    fields := found.filterMap (suggestedField? limits)
    required := named .required
    optional := named .optional
    excluded := named .excluded }

end VaultSchema.Inference
