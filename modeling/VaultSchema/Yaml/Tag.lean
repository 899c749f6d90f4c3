import VaultSchema.Number.LooseReading
import VaultSchema.Value.Basic

set_option autoImplicit false

namespace VaultSchema.Yaml

inductive Tag where
  | null
  | bool
  | int
  | float
  | timestamp
  | binary
  | text
  | merge
  | value
  | sequence
  | mapping
  | set
  | orderedMap
  | pairs
  | unknown
  deriving DecidableEq, Repr

namespace Tag

def home : String := "tag:yaml.org,2002:"

def names : List (String × Tag) :=
  [("null", .null), ("bool", .bool), ("int", .int), ("float", .float), ("timestamp", .timestamp),
    ("binary", .binary), ("str", .text), ("merge", .merge), ("value", .value), ("seq", .sequence),
    ("map", .mapping), ("set", .set), ("omap", .orderedMap), ("pairs", .pairs)]

def ofName (name : String) : Tag :=
  ((names.find? fun e => home ++ e.1 == name).map Prod.snd).getD .unknown

end Tag

namespace Plain

def truthWords : List (String × Bool) :=
  [("yes", true), ("no", false), ("true", true), ("false", false), ("on", true), ("off", false)]

/-- A word as written in small letters, with a capital, or in capitals. -/
def spellings (word : String) : List String :=
  let cs := word.toList
  [word, String.ofList ((cs.take 1).map Char.toUpper ++ cs.drop 1),
    String.ofList (cs.map Char.toUpper)]

def isTruthWord (s : String) : Bool := truthWords.any fun w => (spellings w.1).contains s

def isNull (s : String) : Bool := s == "" || s == "~" || (spellings "null").contains s

def dropSign (cs : List Char) : List Char := (Decimal.splitSign cs).2

def isDigitOrLine (c : Char) : Bool := Decimal.isDigit c || c == '_'

def isGrouped : List Char → Bool
  | [] => false
  | c :: rest => Decimal.isDigit c && rest.all isDigitOrLine

def isSixtieth : List Char → Bool
  | [c] => Decimal.isDigit c
  | [a, b] => '0' ≤ a && a ≤ '5' && Decimal.isDigit b
  | _ => false

def isExponent : List Char → Bool
  | [] => true
  | e :: sign :: digits =>
    (e == 'e' || e == 'E') && (sign == '+' || sign == '-') && Decimal.hasDigits digits
  | _ => false

/-- A whole part, a point, and perhaps a fraction and an exponent; without a whole part no sign
and at least one digit. -/
def isDecimal (cs : List Char) : Bool :=
  let body := dropSign cs
  let fraction := (body.dropWhile (· != '.')).drop 1
  let behind := isExponent (fraction.dropWhile isDigitOrLine)
  body.contains '.' &&
    ((isGrouped (body.takeWhile (· != '.')) && behind)
      || (cs.head? == some '.' && isGrouped (fraction.takeWhile isDigitOrLine) && behind))

def isSixtyDecimal (cs : List Char) : Bool :=
  match Text.splitList (· == ':') (dropSign cs) with
  | first :: (p :: ps) =>
    let last := (p :: ps).getLast (by simp)
    isGrouped first && ((p :: ps).dropLast).all isSixtieth
      && last.contains '.' && isSixtieth (last.takeWhile (· != '.'))
      && ((last.dropWhile (· != '.')).drop 1).all isDigitOrLine
  | _ => false

def isEndless (cs : List Char) : Bool :=
  match dropSign cs with
  | '.' :: w => (spellings "inf").contains (String.ofList w)
  | _ => false

def isNotANumber (s : String) : Bool := [".nan", ".NaN", ".NAN"].contains s

def isFloat (s : String) : Bool :=
  let cs := s.toList
  isDecimal cs || isSixtyDecimal cs || isEndless cs || isNotANumber s

def isOctal (c : Char) : Bool := ('0' ≤ c && c ≤ '7') || c == '_'

def isBinary (c : Char) : Bool := c == '0' || c == '1' || c == '_'

def isHex (c : Char) : Bool :=
  isDigitOrLine c || ('a' ≤ c && c ≤ 'f') || ('A' ≤ c && c ≤ 'F')

def isInt (s : String) : Bool :=
  match dropSign s.toList with
  | ['0'] => true
  | '0' :: 'b' :: rest => !rest.isEmpty && rest.all isBinary
  | '0' :: 'x' :: rest => !rest.isEmpty && rest.all isHex
  | '0' :: rest => rest.all isOctal
  | cs =>
    match Text.splitList (· == ':') cs with
    | first :: others => isGrouped first && others.all isSixtieth
    | [] => false

end Plain

structure WrittenTime where
  year : Nat
  month : Nat
  day : Nat
  /-- Month and day have two digits each. -/
  padded : Bool
  clock : Option (Nat × Nat × Nat × List Char)
  offset : Option Int

namespace WrittenTime

def takeUpTo? (most : Nat) (cs : List Char) : Option (Nat × Nat × List Char) :=
  let digits := (cs.take most).takeWhile Decimal.isDigit
  if digits.isEmpty then none
  else some (Decimal.ofDigits digits, digits.length, cs.drop digits.length)

def takeExactly? (width : Nat) (cs : List Char) : Option (Nat × List Char) := do
  let (n, k, rest) ← takeUpTo? width cs
  if k == width then some (n, rest) else none

def expect? (c : Char) : List Char → Option (List Char)
  | [] => none
  | d :: rest => if c == d then some rest else none

def dropBlanks (cs : List Char) : List Char := cs.dropWhile fun c => c == ' ' || c == '\t'

def readOffset? (cs : List Char) : Option (Option Int) :=
  match dropBlanks cs with
  | [] => if cs.isEmpty then some none else none
  | ['Z'] => some (some 0)
  | sign :: rest =>
    if sign == '+' || sign == '-' then do
      let (hours, _, rest) ← takeUpTo? 2 rest
      let minutes ←
        match rest with
        | [] => some 0
        | ':' :: r => do
          let (m, r) ← takeExactly? 2 r
          if r.isEmpty then some m else none
        | _ => none
      let micros : Int := (hours * 60 + minutes) * 60 * 1000000
      some (some (if sign == '-' then -micros else micros))
    else none

def readClock? (cs : List Char) : Option (Nat × Nat × Nat × List Char × Option Int) := do
  let (hour, _, rest) ← takeUpTo? 2 cs
  let (minute, rest) ← takeExactly? 2 (← expect? ':' rest)
  let (second, rest) ← takeExactly? 2 (← expect? ':' rest)
  let (fraction, rest) :=
    match rest with
    | '.' :: r => (r.takeWhile Decimal.isDigit, r.dropWhile Decimal.isDigit)
    | r => ([], r)
  some (hour, minute, second, fraction, ← readOffset? rest)

def read? (s : String) : Option WrittenTime := do
  let (year, rest) ← takeExactly? 4 s.toList
  let (month, monthWidth, rest) ← takeUpTo? 2 (← expect? '-' rest)
  let (day, dayWidth, rest) ← takeUpTo? 2 (← expect? '-' rest)
  let padded := monthWidth == 2 && dayWidth == 2
  match rest with
  | [] => some ⟨year, month, day, padded, none, none⟩
  | c :: r =>
    if c == 'T' || c == 't' || c == ' ' || c == '\t' then do
      let r := if c == 'T' || c == 't' then r else dropBlanks r
      let (hour, minute, second, fraction, offset) ← readClock? r
      some ⟨year, month, day, padded, some (hour, minute, second, fraction), offset⟩
    else none

/-- A text is a time by its form when it has a time of day or is padded. -/
def isPlain (s : String) : Bool := (read? s).any fun t => t.padded || t.clock.isSome

/-- Six digits of the fraction count. -/
def toScalar? (t : WrittenTime) : Option Scalar := do
  let date ← Date.ofFields? t.year t.month t.day
  match t.clock with
  | none => some (.date date)
  | some (hour, minute, second, fraction) =>
    let micros := Decimal.ofDigits ((fraction ++ List.replicate 6 '0').take 6)
    let m ← Moment.ofFields? date hour minute second micros t.offset
    some (.moment m)

end WrittenTime

def Tag.ofPlain (s : String) : Tag :=
  if Plain.isTruthWord s then .bool
  else if Plain.isFloat s then .float
  else if Plain.isInt s then .int
  else if s == "<<" then .merge
  else if Plain.isNull s then .null
  else if WrittenTime.isPlain s then .timestamp
  else if s == "=" then .value
  else .text

end VaultSchema.Yaml
