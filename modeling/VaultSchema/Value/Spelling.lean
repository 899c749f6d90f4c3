import VaultSchema.Value.Basic
import VaultSchema.Number.Decimal
import VaultSchema.Text.Printable

/-! Two notations of values for readers: `spelling`, in which a text stands for itself, and
`literal`, in which texts are quoted and every kind can be told from the others. Containers are
spelt with their members in literal notation. -/

set_option autoImplicit false

namespace VaultSchema

def greatestDigitCount : Nat := 4300

def integerText (i : Int) : Except ValueFault String :=
  let text := toString i
  if greatestDigitCount < (toString i.natAbs).length then .error .tooManyDigits else .ok text

def hexDigit (n : Nat) : Char := (Nat.toDigits 16 (n % 16)).headD '0'

def hexText (width n : Nat) : String :=
  String.ofList ((List.range width).reverse.map fun k => hexDigit (n / Nat.pow 16 k))

namespace Quoting

def quoteFor (cs : List Char) : Char := if cs.contains '\'' && !cs.contains '"' then '"' else '\''

def named? (quote c : Char) : Option String :=
  if c == quote || c == '\\' then some (String.ofList ['\\', c])
  else if c == '\t' then some "\\t"
  else if c == '\n' then some "\\n"
  else if c == '\r' then some "\\r"
  else none

def textChar (quote c : Char) : String :=
  (named? quote c).getD <|
    let code := c.toNat
    if Text.isPrintable c then c.toString
    else if code < 0x100 then "\\x" ++ hexText 2 code
    else if code < 0x10000 then "\\u" ++ hexText 4 code
    else "\\U" ++ hexText 8 code

def quotedText (s : String) : String :=
  let quote := quoteFor s.toList
  quote.toString ++ String.join (s.toList.map (textChar quote)) ++ quote.toString

def byteChar (quote c : Char) : String :=
  (named? quote c).getD <|
    if ' ' ≤ c && c ≤ '~' then c.toString else "\\x" ++ hexText 2 c.toNat

def quotedBytes (bs : List UInt8) : String :=
  let cs := bs.map fun b => Char.ofNat b.toNat
  let quote := quoteFor cs
  "b" ++ quote.toString ++ String.join (cs.map (byteChar quote)) ++ quote.toString

end Quoting

namespace Scalar

def dateLiteral (d : Date) : String := s!"datetime.date({d.year}, {d.month}, {d.day})"

/-- A length of time as days, seconds and microseconds, only the first of which may be negative. -/
def spanLiteral (micros : Int) : String :=
  let days := Int.fdiv micros Moment.microsPerDay
  let rest := Int.fmod micros Moment.microsPerDay
  let seconds := rest / Moment.microsPerSecond
  let fraction := rest % Moment.microsPerSecond
  let parts := (if days == 0 then [] else [s!"days={days}"])
    ++ (if seconds == 0 then [] else [s!"seconds={seconds}"])
    ++ (if fraction == 0 then [] else [s!"microseconds={fraction}"])
  "datetime.timedelta(" ++ (if parts.isEmpty then "0" else ", ".intercalate parts) ++ ")"

def offsetLiteral (micros : Int) : String :=
  if micros == 0 then "datetime.timezone.utc"
  else "datetime.timezone(" ++ spanLiteral micros ++ ")"

def momentLiteral (m : Moment) : String :=
  let fields := [m.date.year, m.date.month, m.date.day, m.hour, m.minute]
    ++ (if m.second == 0 && m.microsecond == 0 then [] else [m.second])
    ++ (if m.microsecond == 0 then [] else [m.microsecond])
  let parts := fields.map toString ++ (m.offset.map fun o => ["tzinfo=" ++ offsetLiteral o]).getD []
  "datetime.datetime(" ++ ", ".intercalate parts ++ ")"

def spelling : Scalar → Except ValueFault String
  | .null => .ok "None"
  | .bool b => .ok (if b then "True" else "False")
  | .int i => integerText i
  | .float x => .ok (Decimal.text .plain x)
  | .text s => .ok s
  | .date d => .ok d.text
  | .moment m => .ok (m.textWith " ")
  | .bytes bs => .ok (Quoting.quotedBytes bs)

def literal : Scalar → Except ValueFault String
  | .text s => .ok (Quoting.quotedText s)
  | .date d => .ok (dateLiteral d)
  | .moment m => .ok (momentLiteral m)
  | s => s.spelling

end Scalar

def collect {ε α : Type} : List (Except ε α) → Except ε (List α)
  | [] => .ok []
  | x :: rest => do
    let a ← x
    let as ← collect rest
    return a :: as

namespace Value

/-- A fixed sequence of one member keeps its comma. -/
def bracket (kind : SequenceKind) (members : List String) : String :=
  match kind, members with
  | .list, _ => "[" ++ ", ".intercalate members ++ "]"
  | .fixed, [one] => "(" ++ one ++ ",)"
  | .fixed, _ => "(" ++ ", ".intercalate members ++ ")"

mutual

def literal : Value → Except ValueFault String
  | .scalar s => s.literal
  | .sequence kind items => do return bracket kind (← literals items)
  | .mapping entries => do return "\x7b" ++ ", ".intercalate (← entryLiterals entries) ++ "\x7d"

def literals : List Value → Except ValueFault (List String)
  | [] => .ok []
  | v :: rest => do
    let first ← literal v
    let others ← literals rest
    return first :: others

def entryLiterals : List (Scalar × Value) → Except ValueFault (List String)
  | [] => .ok []
  | (k, v) :: rest => do
    let key ← k.literal
    let value ← literal v
    let others ← entryLiterals rest
    return (key ++ ": " ++ value) :: others

end

def spelling : Value → Except ValueFault String
  | .scalar s => s.spelling
  | v => v.literal

end Value
end VaultSchema
