import VaultSchema.Calendar.Date
import VaultSchema.Number.Binary64

/-! A date with a time of day and perhaps an offset from universal time. A moment without an offset
is read as universal time when it is placed on the time line. -/

set_option autoImplicit false

namespace VaultSchema

/-- An offset is a signed number of microseconds. -/
structure Moment where
  date : Date
  hour : Nat
  minute : Nat
  second : Nat
  microsecond : Nat
  offset : Option Int
  deriving DecidableEq, Repr

namespace Moment

def microsPerSecond : Nat := 1000000

def microsPerDay : Nat := 86400 * microsPerSecond

def ofFields? (date : Date) (hour minute second microsecond : Nat) (offset : Option Int) :
    Option Moment :=
  if hour < 24 && minute < 60 && second < 60 && microsecond < microsPerSecond
      && offset.all (·.natAbs < microsPerDay)
  then some ⟨date, hour, minute, second, microsecond, offset⟩
  else none

def startOf (date : Date) : Moment := ⟨date, 0, 0, 0, 0, none⟩

/-- Microseconds since the start of 1970 in universal time. -/
def toMicros (m : Moment) : Int :=
  m.date.toDays * microsPerDay
    + ((m.hour * 60 + m.minute) * 60 + m.second) * microsPerSecond
    + m.microsecond - m.offset.getD 0

def secondsOfMicros (micros : Int) : Binary64 :=
  Binary64.ofRatio (micros < 0) micros.natAbs microsPerSecond

def timestamp (m : Moment) : Binary64 := secondsOfMicros m.toMicros

def dateOfTimestamp? (t : Binary64) : Option Date :=
  (t.roundToParts? microsPerSecond).bind fun micros =>
    Date.ofDays? (Int.fdiv micros microsPerDay)

def ofMicros? (micros : Int) : Option Moment := do
  let date ← Date.ofDays? (Int.fdiv micros microsPerDay)
  let rest := (Int.fmod micros microsPerDay).toNat
  let seconds := rest / microsPerSecond
  return ⟨date, seconds / 3600, seconds / 60 % 60, seconds % 60, rest % microsPerSecond, some 0⟩

def ofTimestamp? (t : Binary64) : Option Moment := (t.roundToParts? microsPerSecond).bind ofMicros?

/-- Hours and minutes, and only where they are not zero seconds and a fraction. -/
def offsetText (micros : Int) : String :=
  let n := micros.natAbs
  let seconds := n / microsPerSecond
  let fraction := n % microsPerSecond
  (if micros < 0 then "-" else "+")
    ++ Text.padded 2 (seconds / 3600) ++ ":" ++ Text.padded 2 (seconds / 60 % 60)
    ++ (if seconds % 60 == 0 && fraction == 0 then "" else ":" ++ Text.padded 2 (seconds % 60))
    ++ (if fraction == 0 then "" else "." ++ Text.padded 6 fraction)

def clockText (m : Moment) : String :=
  Text.padded 2 m.hour ++ ":" ++ Text.padded 2 m.minute ++ ":" ++ Text.padded 2 m.second
    ++ (if m.microsecond == 0 then "" else "." ++ Text.padded 6 m.microsecond)

def textWith (separator : String) (m : Moment) : String :=
  m.date.text ++ separator ++ m.clockText ++ (m.offset.map offsetText).getD ""

def text (m : Moment) : String := m.textWith "T"

/-- The same instant if both have an offset, the same fields if neither has one. -/
def coincides (a b : Moment) : Bool :=
  a.offset.isSome == b.offset.isSome && a.toMicros == b.toMicros

end Moment
end VaultSchema
