import VaultSchema.Text.Basic

/-! Dates of the Gregorian calendar, carried back before its introduction, in the years 1 to 9999. A
date is known by year, month and day, and counted in days from 1970-01-01. -/

set_option autoImplicit false

namespace VaultSchema

namespace Calendar

def isLeap (year : Nat) : Bool := year % 4 == 0 && (year % 100 != 0 || year % 400 == 0)

def daysInMonth (year month : Nat) : Nat :=
  match month with
  | 2 => if isLeap year then 29 else 28
  | 4 | 6 | 9 | 11 => 30
  | _ => 31

def isDate (year month day : Nat) : Bool :=
  1 ≤ year && year ≤ 9999 && 1 ≤ month && month ≤ 12 && 1 ≤ day && day ≤ daysInMonth year month

def daysBeforeYear (year : Nat) : Nat :=
  let y := year - 1
  y * 365 + y / 4 - y / 100 + y / 400

def daysBeforeMonth (year month : Nat) : Nat :=
  (List.range (month - 1)).foldl (fun days m => days + daysInMonth year (m + 1)) 0

def epochDays : Nat := 719162

end Calendar

structure Date where
  year : Nat
  month : Nat
  day : Nat
  valid : Calendar.isDate year month day = true
  deriving DecidableEq, Repr

namespace Date

open Calendar

def ofFields? (year month day : Nat) : Option Date :=
  if h : isDate year month day = true then some ⟨year, month, day, h⟩ else none

def toDays (d : Date) : Int :=
  (daysBeforeYear d.year + daysBeforeMonth d.year d.month + (d.day - 1) : Nat) - epochDays

/-- The month and day that lie so many days after the start of a year, month by month. -/
def monthAndDay (year : Nat) : Nat → Nat → Nat → Nat × Nat
  | 0, month, left => (month, left + 1)
  | fuel + 1, month, left =>
    if left < daysInMonth year month then (month, left + 1)
    else monthAndDay year fuel (month + 1) (left - daysInMonth year month)

/-- The year, counted from one, that holds a day counted from zero at the start of year one. -/
def yearOf (days : Nat) : Nat :=
  let guess := days / 366 + 1
  let steps := (List.range 30).takeWhile fun k => daysBeforeYear (guess + k + 1) ≤ days
  guess + steps.length

def ofDays? (days : Int) : Option Date :=
  let n := days + epochDays
  if n < 0 then none
  else
    let n := n.toNat
    let year := yearOf n
    let (month, day) := monthAndDay year 12 1 (n - daysBeforeYear year)
    ofFields? year month day

/-- Monday is 0. -/
def weekday (d : Date) : Nat := ((d.toDays + epochDays) % 7).toNat

def text (d : Date) : String :=
  Text.padded 4 d.year ++ "-" ++ Text.padded 2 d.month ++ "-" ++ Text.padded 2 d.day

/-- Days since 1970-01-01 of the Monday on which the first week of a year begins: the week that
holds its first Thursday. -/
def firstMonday (year : Nat) : Int :=
  let start := (daysBeforeYear year : Int)
  let weekday := start % 7
  let monday := start - weekday
  (if 3 < weekday then monday + 7 else monday) - epochDays

/-- Years whose first day is a Thursday, and leap years whose first day is a Wednesday. -/
def hasWeek53 (year : Nat) : Bool :=
  let weekday := daysBeforeYear year % 7
  weekday == 3 || (weekday == 2 && isLeap year)

def ofWeek? (year week day : Nat) : Option Date :=
  if week == 0 || 53 < week || (week == 53 && !hasWeek53 year) || day == 0 || 7 < day || year == 0
  then none
  else ofDays? (firstMonday year + (week - 1) * 7 + (day - 1))

end Date
end VaultSchema
