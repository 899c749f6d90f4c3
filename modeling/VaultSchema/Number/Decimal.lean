import VaultSchema.Number.Binary64

/-! Decimal notation of doubles. Writing takes the fewest digits that read back as the same double
and among those the nearest; reading rounds the exact decimal to the nearest double. -/

set_option autoImplicit false

namespace VaultSchema.Decimal

structure Scientific where
  mantissa : Nat
  exponent : Int
  deriving DecidableEq, Repr

/-- A decimal exponent `e` with `10 ^ (e - 1) ≤ units · 2⁻¹⁰⁷⁴ < 10 ^ e`. The first guess from the
binary length is at most two too small. -/
def magnitude (units : Nat) : Int :=
  let guess := ((units.log2 : Int) - Binary64.unitBits) * 30103 / 100000
  let below (e : Int) : Bool :=
    if 0 ≤ e then units < Nat.pow 10 e.toNat * Binary64.unit else units * Nat.pow 10 (-e).toNat < Binary64.unit
  if below guess then guess else if below (guess + 1) then guess + 1 else guess + 2

/-- The reals that round to a double, in quarters of a unit: the two ends, and whether they belong. -/
structure Neighbourhood where
  low : Nat
  high : Nat
  closed : Bool

def neighbourhood (units : Nat) : Neighbourhood :=
  let s := Binary64.spareBits units
  let significand := units / Nat.pow 2 s
  let gap := Nat.pow 2 s
  let lowGap := if significand = Nat.pow 2 52 && 0 < s then gap else 2 * gap
  ⟨4 * units - lowGap, 4 * units + 2 * gap, significand % 2 = 0⟩

def atPlaces? (units : Nat) (top : Int) (places : Nat) : Option Scientific :=
  let shift := (places : Int) - top
  let up := Nat.pow 10 shift.toNat
  let n := units * up
  let d := Binary64.unit * Nat.pow 10 (-shift).toNat
  let hood := neighbourhood units
  let fits (c : Nat) : Bool :=
    let at4 := 4 * c * d
    if hood.closed then hood.low * up ≤ at4 && at4 ≤ hood.high * up
    else hood.low * up < at4 && at4 < hood.high * up
  let q := n / d
  let nearer := if 2 * (n % d) < d || (2 * (n % d) = d && q % 2 = 0) then q else q + 1
  let farther := if nearer = q then q + 1 else q
  if fits nearer then some ⟨nearer, -shift⟩
  else if fits farther then some ⟨farther, -shift⟩
  else none

def shortest (units : Nat) : Scientific :=
  let top := magnitude units
  ((List.range 17).findSome? fun k => atPlaces? units top (k + 1)).getD ⟨units, -Binary64.unitBits⟩

/-- How a double is spelt: the positions of the point that are written positionally, counted from
before the first digit, and the words for the numbers without digits. -/
structure Style where
  leastPoint : Int
  greatestPoint : Int
  nan : String
  infinity : String

def Style.plain : Style := ⟨-3, 16, "nan", "inf"⟩

def trimTrailingZeros (digits : List Char) : List Char :=
  (digits.reverse.dropWhile (· == '0')).reverse

def exponentText (e : Int) : String :=
  let digits := toString e.natAbs
  let padded := if digits.length < 2 then "0" ++ digits else digits
  (if e < 0 then "-" else "+") ++ padded

def digitsText (style : Style) (digits : List Char) (point : Int) : String :=
  if style.leastPoint ≤ point && point ≤ style.greatestPoint then
    if point ≤ 0 then
      "0." ++ String.ofList (List.replicate (-point).toNat '0' ++ digits)
    else
      let whole := point.toNat
      if whole < digits.length then
        String.ofList (digits.take whole) ++ "." ++ String.ofList (digits.drop whole)
      else
        String.ofList (digits ++ List.replicate (whole - digits.length) '0') ++ ".0"
  else
    let fraction := digits.drop 1
    String.ofList (digits.take 1)
      ++ (if fraction.isEmpty then "" else "." ++ String.ofList fraction)
      ++ "e" ++ exponentText (point - 1)

def magnitudeText (style : Style) (units : Nat) : String :=
  if units = 0 then "0.0"
  else
    let s := shortest units
    let all := (toString s.mantissa).toList
    digitsText style (trimTrailingZeros all) (all.length + s.exponent)

def text (style : Style) : Binary64 → String
  | .nan => style.nan
  | .infinite s => (if s then "-" else "") ++ style.infinity
  | .finite s u => (if s then "-" else "") ++ magnitudeText style u

def greatestExponent : Int := 310

def leastExponent : Int := -330

def nearest (negative : Bool) (s : Scientific) : Binary64 :=
  if s.mantissa = 0 then .finite negative 0
  else
    let top := s.exponent + ((toString s.mantissa).length : Int)
    if greatestExponent < top then .infinite negative
    else if top < leastExponent then .finite negative 0
    else if 0 ≤ s.exponent then Binary64.ofRatio negative (s.mantissa * Nat.pow 10 s.exponent.toNat) 1
    else Binary64.ofRatio negative s.mantissa (Nat.pow 10 (-s.exponent).toNat)

def digitValue (c : Char) : Nat := c.toNat - '0'.toNat

def isDigit (c : Char) : Bool := '0' ≤ c && c ≤ '9'

def ofDigits (cs : List Char) : Nat := cs.foldl (fun n c => n * 10 + digitValue c) 0

def hasDigits (cs : List Char) : Bool := !cs.isEmpty && cs.all isDigit

def splitSign : List Char → Bool × List Char
  | '-' :: r => (true, r)
  | '+' :: r => (false, r)
  | r => (false, r)

def readExponent? : List Char → Option Int
  | [] => some 0
  | c :: r =>
    if c == 'e' || c == 'E' then
      let (negative, digits) := splitSign r
      if hasDigits digits then
        some (if negative then -(ofDigits digits : Int) else ofDigits digits)
      else none
    else none

def readUnsigned? (cs : List Char) : Option Scientific :=
  let whole := cs.takeWhile isDigit
  let rest := cs.dropWhile isDigit
  let (fraction, rest) :=
    match rest with
    | '.' :: r => (r.takeWhile isDigit, r.dropWhile isDigit)
    | r => ([], r)
  if whole.isEmpty && fraction.isEmpty then none
  else
    (readExponent? rest).map fun e =>
      ⟨ofDigits (whole ++ fraction), e - (fraction.length : Int)⟩

theorem ofDigits_append_singleton (cs : List Char) (c : Char) :
    ofDigits (cs ++ [c]) = ofDigits cs * 10 + digitValue c := by
  simp [ofDigits]

end VaultSchema.Decimal
