import VaultSchema.Calendar.Reading
import VaultSchema.Json.Writing
import VaultSchema.Text.Digit

set_option autoImplicit false

namespace VaultSchema.Value

/-- A double without a fraction is shown as an integer. -/
def displayFloat (x : Binary64) : Except ValueFault String :=
  match x.toInt? with
  | some i => integerText i
  | none => .ok (Decimal.text .plain x)

def displayScalar : Scalar → Except ValueFault String
  | .null => .ok ""
  | .bool b => .ok (if b then "true" else "false")
  | .int i => integerText i
  | .float x => displayFloat x
  | .text s => .ok s
  | .date d => .ok d.text
  | .moment m => .ok m.text
  | .bytes bs => .ok (Quoting.quotedBytes bs)

mutual

/-- The text under which a value is shown and compared: members of sequences between commas,
mappings as compact JSON. -/
def display : Value → Except ValueFault String
  | .scalar s => displayScalar s
  | .sequence _ items => do return ",".intercalate (← displays items)
  | .mapping entries => Json.write .compact (.mapping entries)

def displays : List Value → Except ValueFault (List String)
  | [] => .ok []
  | v :: rest => do
    let first ← display v
    let others ← displays rest
    return first :: others

end

/-- Digits of any script as those of ASCII, if all characters are digits and there is one. -/
def asciiDigits? (cs : List Char) : Option (List Char) :=
  if cs.isEmpty then none
  else cs.mapM fun c => (Text.digitValue? c).map fun d => Char.ofNat (d + '0'.toNat)

def numberOfText? (s : String) : Option Binary64 := do
  let cs := (Text.trim s).toList
  let negative := cs.head? == some '-'
  let body := if negative then cs.drop 1 else cs
  let whole ← asciiDigits? (body.takeWhile (· != '.'))
  let fraction ←
    match body.dropWhile (· != '.') with
    | [] => some []
    | _ :: r => asciiDigits? r
  some (Decimal.nearest negative ⟨Decimal.ofDigits (whole ++ fraction), -(fraction.length : Int)⟩)

def number : Value → Except ValueFault (Option Binary64)
  | .scalar (.int i) =>
    match Binary64.ofInt? i with
    | some x => .ok (some x)
    | none => .error .numberTooLarge
  | .scalar (.float x) => .ok (some x)
  | .scalar (.text s) => .ok (numberOfText? s)
  | _ => .ok none

/-- A capital Z anywhere stands for the offset of universal time. -/
def expandZulu (s : String) : String :=
  String.ofList (s.toList.flatMap fun c => if c == 'Z' then "+00:00".toList else [c])

def momentOfText? (s : String) : Option Moment := Calendar.readMoment? (expandZulu (Text.trim s))

/-- The moment that a date-like value denotes. -/
def moment? : Value → Option Moment
  | .scalar (.moment m) => some m
  | .scalar (.date d) => some (Moment.startOf d)
  | .scalar (.text s) => momentOfText? s
  | _ => none

/-- Seconds since the start of 1970 in universal time. -/
def timestamp? (v : Value) : Option Binary64 := v.moment?.map Moment.timestamp

theorem number_bool (b : Bool) : number (.bool b) = .ok none := rfl

end VaultSchema.Value
