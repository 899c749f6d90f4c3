import VaultSchema.Calendar.Moment
import VaultSchema.Number.Decimal

/-! Reading of dates with times in the notations of ISO 8601. A few slack forms are read too: a mark
may stand between a time and its offset, and the rest of a time without separators is its fraction.
-/

set_option autoImplicit false

namespace VaultSchema.Calendar

def nul : Char := Char.ofNat 0

def charAt (cs : List Char) (i : Nat) : Char := cs.getD i nul

def isDigitAt (cs : List Char) (i : Nat) : Bool := Decimal.isDigit (charAt cs i)

def takeNumber? (width : Nat) (cs : List Char) : Option (Nat × List Char) :=
  let digits := cs.take width
  if digits.length == width && digits.all Decimal.isDigit then
    some (Decimal.ofDigits digits, cs.drop width)
  else none

/-- Where the date ends, as far as its first characters tell. A hyphen after a week is taken for the
separator before the time when two digits follow it, and the digits after a week without hyphens
are taken in pairs. -/
def dateLength (cs : List Char) : Nat :=
  let n := cs.length
  if n == 7 then 7
  else if charAt cs 4 == '-' then
    if charAt cs 5 == 'W' then
      if charAt cs 8 == '-' then if isDigitAt cs 10 then 8 else 10
      else 8
    else 10
  else if charAt cs 4 == 'W' then
    let stop := 7 + ((cs.drop 7).takeWhile Decimal.isDigit).length
    if stop < 9 then stop else if stop % 2 == 0 then 7 else 8
  else 8

def readDate? (cs : List Char) (size : Nat) : Option Date := do
  let (year, rest) ← takeNumber? 4 cs
  let hyphens := charAt rest 0 == '-'
  let rest := if hyphens then rest.drop 1 else rest
  if charAt rest 0 == 'W' then
    let (week, rest) ← takeNumber? 2 (rest.drop 1)
    let used := if hyphens then 8 else 7
    if used < size then
      if hyphens && charAt rest 0 != '-' then none
      else
        let (day, _) ← takeNumber? 1 (if hyphens then rest.drop 1 else rest)
        Date.ofWeek? year week day
    else Date.ofWeek? year week 1
  else
    let (month, rest) ← takeNumber? 2 rest
    if hyphens && charAt rest 0 != '-' then none
    else
      let (day, _) ← takeNumber? 2 (if hyphens then rest.drop 1 else rest)
      Date.ofFields? year month day

structure Clock where
  hour : Nat
  minute : Nat
  second : Nat
  microsecond : Nat
  trailing : Bool

/-- A fraction of a second: six digits count, further ones are passed over. -/
def readFraction? (cs : List Char) (behind : Char) : Option (Nat × Bool) := do
  let width := min 6 cs.length
  let (value, rest) ← takeNumber? width cs
  let next := (rest.dropWhile Decimal.isDigit).head?.getD behind
  some (value * Nat.pow 10 (6 - width), next != nul)

def readFields? (behind : Char) (separated : Option Bool) :
    Nat → List Nat → List Char → Option (List Nat × Nat × Bool)
  | 0, fields, cs => do
    let (micro, trailing) ← readFraction? cs behind
    some (fields, micro, trailing)
  | left + 1, fields, cs => do
    let (value, rest) ← takeNumber? 2 cs
    let fields := fields ++ [value]
    let next := rest.head?.getD behind
    let colons := separated.getD (next == ':')
    if rest.length ≤ 1 then some (fields, 0, next != nul)
    else if colons && next == ':' then readFields? behind (some colons) left fields (rest.drop 1)
    else if next == '.' || next == ',' then
      let (micro, trailing) ← readFraction? (rest.drop 1) behind
      some (fields, micro, trailing)
    else if !colons then readFields? behind (some colons) left fields rest
    else none

def readClock? (cs : List Char) (behind : Char) : Option Clock :=
  (readFields? behind none 3 [] cs).map fun (fields, micro, trailing) =>
    ⟨fields.getD 0 0, fields.getD 1 0, fields.getD 2 0, micro, trailing⟩

def startsOffset (c : Char) : Bool := c == '+' || c == '-' || c == 'Z'

/-- A time of day with perhaps an offset. An offset of no whole seconds is universal time. -/
def readTime? (cs : List Char) : Option (Clock × Option Int) := do
  let time := cs.takeWhile fun c => !startsOffset c
  match cs.dropWhile fun c => !startsOffset c with
  | [] =>
    let clock ← readClock? time nul
    if clock.trailing then none else some (clock, none)
  | sign :: zone =>
    let clock ← readClock? time sign
    if sign == 'Z' then
      if charAt zone 0 == nul then some (clock, some 0) else none
    else
      let o ← readClock? zone nul
      if o.trailing then none
      else
        let seconds := (o.hour * 60 + o.minute) * 60 + o.second
        let micros : Int := if seconds == 0 then 0 else seconds * Moment.microsPerSecond + o.microsecond
        some (clock, some (if sign == '-' then -micros else micros))

def byteChars (text : String) : List Char := text.toUTF8.toList.map fun b => Char.ofNat b.toNat

def characterWidth (lead : Char) : Nat :=
  if lead.toNat < 0x80 then 1
  else if lead.toNat / 16 == 0xe then 3
  else if lead.toNat / 16 == 0xf then 4
  else 2

/-- A date with perhaps a time. Lengths count bytes, so that a character beyond ASCII cannot stand
where a mark between two fields is passed over. -/
def readMoment? (text : String) : Option Moment := do
  let cs := byteChars text
  let size := dateLength cs
  let date ← readDate? cs size
  match cs.drop size with
  | [] => some (Moment.startOf date)
  | separator :: time =>
    let (clock, offset) ← readTime? (time.drop (characterWidth separator - 1))
    Moment.ofFields? date clock.hour clock.minute clock.second clock.microsecond offset

end VaultSchema.Calendar
