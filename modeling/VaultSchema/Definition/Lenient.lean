import VaultSchema.Definition.Checked
import VaultSchema.Number.LooseReading
import VaultSchema.Value.Conversion

set_option autoImplicit false

namespace VaultSchema.Lenient

open Checked

def isSpace (c : Char) : Bool := Text.isBlank c && !(0x1C ≤ c.toNat && c.toNat ≤ 0x1F)

def trimmed (s : String) : List Char := Text.trimList isSpace s.toList

def text : Value → Checked String
  | .text s => .good s
  | .scalar (.bytes bs) =>
    match String.fromUTF8? ⟨bs.toArray⟩ with
    | some s => .good s
    | none => fail .notUnicode
  | _ => fail .notText

def nonemptyText (v : Value) : Checked String :=
  (text v).refine fun s => if s.isEmpty then fail .emptyText else .good s

/-- Any value as the text under which it is shown, null excepted. -/
def shownText (v : Value) : Checked String :=
  match v with
  | .null => fail .notText
  | v => ofFaulty v.display

def dateText : Value → Checked String
  | .date d => .good d.text
  | .moment m => .good m.text
  | v => text v

def truthOfWord? (s : String) : Option Bool :=
  let word := String.ofList (s.toList.map Char.toLower)
  if ["1", "on", "t", "true", "y", "yes"].contains word then some true
  else if ["0", "off", "f", "false", "n", "no"].contains word then some false
  else none

/-- Integers of a machine word. -/
def isShort (i : Int) : Bool := -(Nat.pow 2 63 : Int) ≤ i && i < Nat.pow 2 63

def truthOfInteger (i : Int) : Checked Bool :=
  if i == 1 then .good true
  else if i == 0 then .good false
  else fail (if isShort i then .unreadTruth else .notTruth)

def truth : Value → Checked Bool
  | .bool b => .good b
  | .int i => truthOfInteger i
  | .float x => ((x.toInt?).map truthOfInteger).getD (fail .notTruth)
  | v =>
    match text v with
    | .good s =>
      match truthOfWord? s with
      | some b => .good b
      | none => fail .unreadTruth
    | .bad [⟨_, .notUnicode⟩] => fail .unreadTruth
    | _ => fail .notTruth

def withoutLowLines (cs : List Char) : List Char :=
  let pieces := Text.splitList (· == '_') cs
  if pieces.any (·.isEmpty) then cs else pieces.flatten

def withoutZeroFraction (cs : List Char) : List Char :=
  let whole := cs.takeWhile (· != '.')
  if (cs.dropWhile (· != '.')).drop 1 |>.all (· == '0') then whole else cs

def integerOfText (s : String) : Checked Int :=
  let (negative, body) := Decimal.splitSign (trimmed s)
  let digits := withoutLowLines (withoutZeroFraction body)
  if !Decimal.hasDigits digits then fail .unreadInteger
  else if greatestDigitCount < digits.length then fail .integerTooLarge
  else
    let n : Int := Decimal.ofDigits digits
    .good (if negative then -n else n)

def integerOfFloat (x : Binary64) : Checked Int :=
  match x.toInt? with
  | some i => if i.natAbs < Nat.pow 2 63 then .good i else fail .integerTooLarge
  | none =>
    match x with
    | .finite _ _ => fail .fractional
    | _ => fail .notFinite

def integer : Value → Checked Int
  | .bool b => .good (if b then 1 else 0)
  | .int i => .good i
  | .float x => integerOfFloat x
  | v =>
    match text v with
    | .good s => integerOfText s
    | .bad [⟨_, .notUnicode⟩] => fail .unreadInteger
    | _ => fail .notInteger

def natural (v : Value) : Checked Nat :=
  (integer v).refine fun i => if i < 0 then fail .tooSmall else .good i.toNat

/-- A double in decimal notation with digits of ASCII, or as a word. -/
def floatOfChars? (cs : List Char) : Option Binary64 :=
  let (negative, body) := Decimal.splitSign cs
  let word := String.ofList (body.map Char.toLower)
  if word == "inf" || word == "infinity" then some (.infinite negative)
  else if word == "nan" then some .nan
  else (Decimal.readUnsigned? body).map (Decimal.nearest negative)

def floatOfText (s : String) : Checked Binary64 :=
  match floatOfChars? (trimmed s) with
  | some x => .good x
  | none =>
    match floatOfChars? (Text.trimList isSpace (withoutLowLines s.toList)) with
    | some x => .good x
    | none => fail .unreadNumber

def float : Value → Checked Binary64
  | .float x => .good x
  | .int i =>
    match Binary64.ofInt? i with
    | some x => .good x
    | none => fail .notNumber
  | .bool b => .good (if b then .one else .zero)
  | v =>
    match text v with
    | .good s => floatOfText s
    | .bad [⟨_, .notUnicode⟩] => fail .unreadNumber
    | _ => fail .notNumber

end VaultSchema.Lenient
