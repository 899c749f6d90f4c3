import VaultSchema.Value.Basic

/-! Reading of authored mappings that goes on after a problem, so that every problem of a file is
reported with the place where it stands. Only a value that cannot be shown at all ends a reading. -/

set_option autoImplicit false

namespace VaultSchema

inductive ShapeFault where
  | missing
  | notText
  | notUnicode
  | emptyText
  | notAList
  | notAMapping
  | unknownName
  | unknownWord
  | notTruth
  | unreadTruth
  | notInteger
  | unreadInteger
  | fractional
  | integerTooLarge
  | notFinite
  | tooSmall
  | notPositive
  | notNumber
  | unreadNumber
  | notPath
  | refused
  deriving DecidableEq, Repr

def ShapeFault.code : ShapeFault → String
  | .missing => "missing"
  | .notText => "string_type"
  | .notUnicode => "string_unicode"
  | .emptyText => "string_too_short"
  | .notAList => "list_type"
  | .notAMapping => "model_type"
  | .unknownName => "enum"
  | .unknownWord => "literal_error"
  | .notTruth => "bool_type"
  | .unreadTruth => "bool_parsing"
  | .notInteger => "int_type"
  | .unreadInteger => "int_parsing"
  | .fractional => "int_from_float"
  | .integerTooLarge => "int_parsing_size"
  | .notFinite => "finite_number"
  | .tooSmall => "greater_than_equal"
  | .notPositive => "greater_than"
  | .notNumber => "float_type"
  | .unreadNumber => "float_parsing"
  | .notPath => "path_type"
  | .refused => "value_error"

inductive PathStep where
  | key (name : String)
  | index (position : Nat)
  deriving DecidableEq, Repr

structure Problem where
  path : List PathStep
  fault : ShapeFault
  deriving DecidableEq, Repr

inductive Checked (α : Type) where
  | good (value : α)
  | bad (problems : List Problem)
  | broken (fault : ValueFault)

namespace Checked

variable {α β : Type}

def map (f : α → β) : Checked α → Checked β
  | .good a => .good (f a)
  | .bad ps => .bad ps
  | .broken e => .broken e

/-- Problems of both parts are kept, in order. -/
def seq (f : Checked (α → β)) (x : Unit → Checked α) : Checked β :=
  match f, x () with
  | .broken e, _ => .broken e
  | _, .broken e => .broken e
  | .good g, y => map g y
  | .bad ps, .good _ => .bad ps
  | .bad ps, .bad qs => .bad (ps ++ qs)

instance : Applicative Checked where
  map := map
  pure := .good
  seq := seq

def fail (fault : ShapeFault) : Checked α := .bad [⟨[], fault⟩]

def refine (x : Checked α) (f : α → Checked β) : Checked β :=
  match x with
  | .good a => f a
  | .bad ps => .bad ps
  | .broken e => .broken e

def under (step : PathStep) : Checked α → Checked α
  | .good a => .good a
  | .bad ps => .bad (ps.map fun p => { p with path := step :: p.path })
  | .broken e => .broken e

def ofFaulty (x : Except ValueFault α) : Checked α :=
  match x with
  | .ok a => .good a
  | .error .tooManyDigits => fail .refused
  | .error e => .broken e

def each (read : Value → Checked α) (items : List Value) : Checked (List α) :=
  go 0 items
where
  go (position : Nat) : List Value → Checked (List α)
    | [] => .good []
    | v :: rest => List.cons <$> (read v).under (.index position) <*> go (position + 1) rest

def list (read : Value → Checked α) : Value → Checked (List α)
  | .sequence _ items => each read items
  | _ => fail .notAList

def orNull (read : Value → Checked α) : Value → Checked (Option α)
  | .null => .good none
  | v => map some (read v)

def mapping (read : Entries → Checked α) : Value → Checked α
  | .mapping m => read m
  | _ => fail .notAMapping

def camel (name : String) : String :=
  match Text.splitList (· == '_') name.toList with
  | [] => name
  | first :: rest =>
    String.ofList (first ++ rest.flatMap fun
      | [] => []
      | c :: cs => c.toUpper :: cs)

/-- The two spellings of a key, the preferred one first. -/
def spellings (name : String) : List String := [camel name, name]

def firstOf (m : Entries) (keys : List String) : Option (String × Value) :=
  keys.findSome? fun k => (m.get? k).map fun v => (k, v)

def optionalOf (m : Entries) (keys : List String) (default : α) (read : Value → Checked α) :
    Checked α :=
  match firstOf m keys with
  | some (k, v) => (read v).under (.key k)
  | none => .good default

def optional (m : Entries) (name : String) (default : α) (read : Value → Checked α) : Checked α :=
  optionalOf m (spellings name) default read

def required (m : Entries) (name : String) (read : Value → Checked α) : Checked α :=
  match firstOf m (spellings name) with
  | some (k, v) => (read v).under (.key k)
  | none => (fail .missing : Checked α).under (.key (camel name))

end Checked
end VaultSchema
