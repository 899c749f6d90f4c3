import VaultSchema.Number.Decimal
import VaultSchema.Text.Basic
import VaultSchema.Text.Digit

set_option autoImplicit false

namespace VaultSchema.Decimal

/-- Digits of any script as those of ASCII; other characters stay. -/
def asciiDigit (c : Char) : Char :=
  match Text.digitValue? c with
  | some d => Char.ofNat (d + '0'.toNat)
  | none => c

/-- Without the low lines, each of which must stand between two digits. -/
def dropLowLines? : List Char → Option (List Char)
  | [] => some []
  | '_' :: _ => none
  | c :: '_' :: d :: rest =>
    if isDigit c && isDigit d then (dropLowLines? (d :: rest)).map (c :: ·) else none
  | c :: rest => (dropLowLines? rest).map (c :: ·)

def lowerAscii (cs : List Char) : List Char := cs.map Char.toLower

def readLoose? (s : String) : Option Binary64 := do
  let (negative, body) := splitSign ((Text.trim s).toList.map asciiDigit)
  let word := String.ofList (lowerAscii body)
  if word == "inf" || word == "infinity" then some (.infinite negative)
  else if word == "nan" then some .nan
  else (readUnsigned? (← dropLowLines? body)).map (nearest negative)

def readLooseInt? (s : String) : Option Int := do
  let (negative, body) := splitSign ((Text.trim s).toList.map asciiDigit)
  let digits ← dropLowLines? body
  if hasDigits digits then
    some (if negative then -(ofDigits digits : Int) else ofDigits digits)
  else none

end VaultSchema.Decimal
