import VaultSchema.Value.Conversion

/-! The operators of conditions, filters and constraints between fields. `evaluate` compares a value
with a written text, and its order holds of no pair but numbers and instants. `compare` relates two
values as numbers, as instants or as what is shown, so that it always decides. -/

set_option autoImplicit false

namespace VaultSchema

inductive Operator where
  | equals
  | notEquals
  | greaterThan
  | lessThan
  | greaterOrEqual
  | lessOrEqual
  | contains
  | notContains
  deriving DecidableEq, Repr

namespace Operator

def all : List Operator :=
  [.equals, .notEquals, .greaterThan, .lessThan, .greaterOrEqual, .lessOrEqual, .contains,
    .notContains]

def name : Operator → String
  | .equals => "equals"
  | .notEquals => "not_equals"
  | .greaterThan => "greater_than"
  | .lessThan => "less_than"
  | .greaterOrEqual => "greater_or_equal"
  | .lessOrEqual => "less_or_equal"
  | .contains => "contains"
  | .notContains => "not_contains"

def ofName? (s : String) : Option Operator := all.find? (·.name == s)

theorem ofName?_name (o : Operator) : ofName? o.name = some o := by cases o <;> decide

def label : Operator → String
  | .equals => "equals"
  | .notEquals => "not equals"
  | .greaterThan => "greater than"
  | .lessThan => "less than"
  | .greaterOrEqual => ">="
  | .lessOrEqual => "<="
  | .contains => "contains"
  | .notContains => "not contains"

def symbol : Operator → String
  | .equals => "="
  | .notEquals => "!="
  | .greaterThan => ">"
  | .lessThan => "<"
  | .greaterOrEqual => ">="
  | .lessOrEqual => "<="
  | .contains => "contains"
  | .notContains => "!contains"

def phrase : Operator → String
  | .equals => "equal to"
  | .notEquals => "not equal to"
  | .greaterThan => "greater than"
  | .lessThan => "less than"
  | .greaterOrEqual => "greater than or equal to"
  | .lessOrEqual => "less than or equal to"
  | o => o.label

def isComparison : Operator → Bool
  | .contains | .notContains => false
  | _ => true

end Operator

inductive ComparisonFault where
  | value (fault : ValueFault)
  | notComparison (operator : Operator)
  deriving DecidableEq, Repr

def ComparisonFault.message : ComparisonFault → Option String
  | .value _ => none
  | .notComparison o => some s!"Operator {o.name} is not a comparison operator"

namespace Operator

/-- The verdict of a comparison operator on things with an equality and an order, nothing for the
other operators. The weak orders are the strict ones or equality. -/
def holds? {α : Type} (equal less : α → α → Bool) (a b : α) : Operator → Option Bool
  | .equals => some (equal a b)
  | .notEquals => some (!equal a b)
  | .greaterThan => some (less b a)
  | .lessThan => some (less a b)
  | .greaterOrEqual => some (less b a || equal a b)
  | .lessOrEqual => some (less a b || equal a b)
  | .contains | .notContains => none

def onNumbers? (o : Operator) (a b : Binary64) : Option Bool :=
  o.holds? Binary64.equal Binary64.less a b

def onTexts? (o : Operator) (a b : String) : Option Bool :=
  o.holds? (· == ·) (fun s t => decide (s < t)) a b

theorem holds?_isSome {α : Type} (equal less : α → α → Bool) (a b : α) (o : Operator) :
    (o.holds? equal less a b).isSome = o.isComparison := by cases o <;> rfl

/-- Membership among the shown members of a sequence, or occurrence in the shown text. -/
def containsText (value : Value) (text : String) : Except ValueFault Bool :=
  match value with
  | .sequence _ items => anyShown text items
  | v => do return Text.contains (← v.display) text
where
  anyShown (text : String) : List Value → Except ValueFault Bool
    | [] => .ok false
    | v :: rest => do if (← v.display) == text then return true else anyShown text rest

/-- The order of numbers, or else of instants; pairs that are neither are in no order. -/
def evaluateOrdering (o : Operator) (value : Value) (text : String) : Except ValueFault Bool := do
  match ← value.number, Value.numberOfText? text with
  | some x, some y => return (o.onNumbers? x y).getD false
  | _, _ =>
    match value.timestamp?, (Value.text text).timestamp? with
    | some x, some y => return (o.onNumbers? x y).getD false
    | _, _ => return false

def evaluate (o : Operator) (value : Value) (text : String) : Except ValueFault Bool :=
  match o with
  | .contains => containsText value text
  | .notContains => do return !(← containsText value text)
  | .equals => do return (← value.display) == text
  | .notEquals => do return (← value.display) != text
  | _ => o.evaluateOrdering value text

def verdict (o : Operator) (v : Option Bool) : Except ComparisonFault Bool :=
  match v with
  | some b => .ok b
  | none => .error (.notComparison o)

def compare (o : Operator) (a b : Value) : Except ComparisonFault Bool := do
  let x ← a.number.mapError .value
  let y ← b.number.mapError .value
  match x, y with
  | some x, some y => o.verdict (o.onNumbers? x y)
  | _, _ =>
    match a.timestamp?, b.timestamp? with
    | some x, some y => o.verdict (o.onNumbers? x y)
    | _, _ =>
      let s ← a.display.mapError .value
      let t ← b.display.mapError .value
      o.verdict (o.onTexts? s t)

end Operator
end VaultSchema
