import VaultSchema.Value.Spelling

/-! Reading of JSON text. Beside the standard the words for numbers without digits are read; a text
that begins with a byte order mark, holds a bare control character inside quotes, or goes on after
its value is refused. Repeated keys keep the first place and the last value. -/

set_option autoImplicit false

namespace VaultSchema.Json

def isSpace (c : Char) : Bool := c == ' ' || c == '\t' || c == '\n' || c == '\r'

def skipSpace (cs : List Char) : List Char := cs.dropWhile isSpace

def hexValue? (c : Char) : Option Nat :=
  if Decimal.isDigit c then some (c.toNat - '0'.toNat)
  else if 'a' ≤ c && c ≤ 'f' then some (c.toNat - 'a'.toNat + 10)
  else if 'A' ≤ c && c ≤ 'F' then some (c.toNat - 'A'.toNat + 10)
  else none

def hexNumber? (cs : List Char) : Option Nat :=
  cs.foldl (fun n c => do return (← n) * 16 + (← hexValue? c)) (some 0)

def takeHex4? (cs : List Char) : Option (Nat × List Char) :=
  if (cs.take 4).length == 4 then (hexNumber? (cs.take 4)).map (·, cs.drop 4) else none

/-- A code point from one escape, or from two that form a pair. A half without its partner becomes
the replacement character. -/
def readUnicode? (cs : List Char) : Option (Char × List Char) := do
  let (high, rest) ← takeHex4? cs
  let single := if 0xd800 ≤ high && high < 0xe000 then Char.ofNat 0xfffd else Char.ofNat high
  match rest with
  | '\\' :: 'u' :: more =>
    match takeHex4? more with
    | some (low, after) =>
      if 0xd800 ≤ high && high < 0xdc00 && 0xdc00 ≤ low && low < 0xe000 then
        some (Char.ofNat (0x10000 + (high - 0xd800) * 0x400 + (low - 0xdc00)), after)
      else some (single, rest)
    | none => some (single, rest)
  | _ => some (single, rest)

def escaped? (c : Char) : Option Char :=
  match c with
  | '"' => some '"'
  | '\\' => some '\\'
  | '/' => some '/'
  | 'b' => some (Char.ofNat 8)
  | 'f' => some (Char.ofNat 12)
  | 'n' => some '\n'
  | 'r' => some '\r'
  | 't' => some '\t'
  | _ => none

def readQuoted? : Nat → List Char → List Char → Option (String × List Char)
  | 0, _, _ => none
  | fuel + 1, done, cs =>
    match cs with
    | [] => none
    | '"' :: rest => some (String.ofList done.reverse, rest)
    | '\\' :: 'u' :: rest => do
      let (c, rest) ← readUnicode? rest
      readQuoted? fuel (c :: done) rest
    | '\\' :: c :: rest => do
      let e ← escaped? c
      readQuoted? fuel (e :: done) rest
    | c :: rest => if c.toNat < 32 then none else readQuoted? fuel (c :: done) rest

/-- The digits of a whole part: a single zero, or digits that do not begin with one. -/
def takeWhole? (cs : List Char) : Option (List Char × List Char) :=
  match cs with
  | '0' :: rest => some (['0'], rest)
  | _ =>
    let digits := cs.takeWhile Decimal.isDigit
    if digits.isEmpty then none else some (digits, cs.dropWhile Decimal.isDigit)

def takeFraction (cs : List Char) : List Char × List Char :=
  match cs with
  | '.' :: rest =>
    let digits := rest.takeWhile Decimal.isDigit
    if digits.isEmpty then ([], cs) else ('.' :: digits, rest.dropWhile Decimal.isDigit)
  | _ => ([], cs)

def takeExponent (cs : List Char) : List Char × List Char :=
  match cs with
  | e :: rest =>
    if e == 'e' || e == 'E' then
      let (sign, digits) :=
        match rest with
        | '-' :: r => (['-'], r)
        | '+' :: r => (['+'], r)
        | r => ([], r)
      let number := digits.takeWhile Decimal.isDigit
      if number.isEmpty then ([], cs) else (e :: sign ++ number, digits.dropWhile Decimal.isDigit)
    else ([], cs)
  | [] => ([], cs)

/-- A number is an integer when it has neither fraction nor exponent. -/
def readNumber? (cs : List Char) : Option (Value × List Char) := do
  let negative := cs.head? == some '-'
  let (whole, rest) ← takeWhole? (if negative then cs.drop 1 else cs)
  let (fraction, rest) := takeFraction rest
  let (exponent, rest) := takeExponent rest
  if fraction.isEmpty && exponent.isEmpty then
    if greatestDigitCount < whole.length then none
    else
      let n : Int := Decimal.ofDigits whole
      some (.int (if negative then -n else n), rest)
  else
    let s ← Decimal.readUnsigned? (whole ++ fraction ++ exponent)
    some (.float (Decimal.nearest negative s), rest)

def words : List (String × Value) :=
  [("null", .null), ("true", .bool true), ("false", .bool false), ("NaN", .float .nan),
    ("Infinity", .float (.infinite false)), ("-Infinity", .float (.infinite true))]

def readWord? (cs : List Char) : Option (Value × List Char) :=
  words.findSome? fun (word, value) =>
    if word.toList.isPrefixOf cs then some (value, cs.drop word.length) else none

mutual

/-- A value and what follows it; no blanks are skipped in front. -/
def readValue? : Nat → List Char → Option (Value × List Char)
  | 0, _ => none
  | fuel + 1, cs =>
    match cs with
    | '"' :: rest => do
      let (s, rest) ← readQuoted? (rest.length + 1) [] rest
      some (.text s, rest)
    | '[' :: rest =>
      match skipSpace rest with
      | ']' :: rest => some (.list [], rest)
      | rest => do
        let (items, rest) ← readItems? fuel rest
        some (.list items, rest)
    | '\x7b' :: rest =>
      match skipSpace rest with
      | '\x7d' :: rest => some (.mapping [], rest)
      | rest => do
        let (entries, rest) ← readMembers? fuel rest
        some (.mapping (Entries.ofList entries), rest)
    | _ => (readWord? cs).or (readNumber? cs)

def readItems? : Nat → List Char → Option (List Value × List Char)
  | 0, _ => none
  | fuel + 1, cs => do
    let (v, rest) ← readValue? fuel cs
    match skipSpace rest with
    | ',' :: rest =>
      let (vs, rest) ← readItems? fuel (skipSpace rest)
      some (v :: vs, rest)
    | ']' :: rest => some ([v], rest)
    | _ => none

def readMembers? : Nat → List Char → Option (List (Scalar × Value) × List Char)
  | 0, _ => none
  | fuel + 1, cs =>
    match cs with
    | '"' :: rest => do
      let (key, rest) ← readQuoted? (rest.length + 1) [] rest
      match skipSpace rest with
      | ':' :: rest =>
        let (v, rest) ← readValue? fuel (skipSpace rest)
        match skipSpace rest with
        | ',' :: rest =>
          let (vs, rest) ← readMembers? fuel (skipSpace rest)
          some ((.text key, v) :: vs, rest)
        | '\x7d' :: rest => some ([(.text key, v)], rest)
        | _ => none
      | _ => none
    | _ => none

end

def read? (text : String) : Option Value :=
  let cs := text.toList
  if cs.head? == some (Char.ofNat 0xfeff) then none
  else
    match readValue? (cs.length + 1) (skipSpace cs) with
    | some (v, rest) => if (skipSpace rest).isEmpty then some v else none
    | none => none

end VaultSchema.Json
