/-! Double-precision numbers as exact integers. A finite double is a whole number of units of 2⁻¹⁰⁷⁴
with a sign, so order, equality and rounding are integer arithmetic. Numbers that are not doubles
are rounded to the nearest one, a tie going to the even significand. -/

set_option autoImplicit false

namespace VaultSchema

inductive Binary64 where
  | nan
  | infinite (negative : Bool)
  | finite (negative : Bool) (units : Nat)
  deriving DecidableEq, Repr, Inhabited

namespace Binary64

/-- A double of value one holds `2 ^ unitBits` units. -/
def unitBits : Nat := 1074

def unit : Nat := Nat.pow 2 unitBits

/-- The least magnitude, in units, that is too large for a finite double. -/
def overflowUnits : Nat := Nat.pow 2 (1024 + unitBits)

def zero : Binary64 := .finite false 0

def one : Binary64 := .finite false unit

/-- The quotient rounded to a whole number, a tie going to the even one. -/
def roundHalfEven (n d : Nat) : Nat :=
  let q := n / d
  let r := n % d
  if 2 * r < d then q
  else if d < 2 * r then q + 1
  else if q % 2 = 0 then q else q + 1

def spareBits (units : Nat) : Nat := units.log2 + 1 - 53

/-- The representable number of units nearest to `n / d`. -/
def roundUnits (n d : Nat) : Nat :=
  let s := spareBits (n / d)
  roundHalfEven n (d * Nat.pow 2 s) * Nat.pow 2 s

/-- The double nearest to `± n / d`; too large a magnitude becomes an infinity. -/
def ofRatio (negative : Bool) (n d : Nat) : Binary64 :=
  let units := roundUnits (n * unit) d
  if overflowUnits ≤ units then .infinite negative else .finite negative units

def ofNat (n : Nat) : Binary64 := ofRatio false n 1

def finite? : Binary64 → Option Binary64
  | .finite s u => some (.finite s u)
  | _ => none

def ofInt? (i : Int) : Option Binary64 := (ofRatio (i < 0) i.natAbs 1).finite?

def signedUnits (negative : Bool) (units : Nat) : Int :=
  if negative then -(units : Int) else units

/-- Where a number stands in the order, nothing for the number that is not one. The first component
puts the infinities outside all finite numbers. -/
def rank? : Binary64 → Option (Int × Int)
  | .nan => none
  | .infinite true => some (-1, 0)
  | .infinite false => some (1, 0)
  | .finite s u => some (0, signedUnits s u)

def rankOfInt (i : Int) : Int × Int := (0, i * unit)

def equal (a b : Binary64) : Bool :=
  match a.rank?, b.rank? with
  | some x, some y => decide (x = y)
  | _, _ => false

def rankLess (x y : Int × Int) : Bool := x.1 < y.1 || (x.1 == y.1 && x.2 < y.2)

def less (a b : Binary64) : Bool :=
  match a.rank?, b.rank? with
  | some x, some y => rankLess x y
  | _, _ => false

def lessOrEqual (a b : Binary64) : Bool := a.less b || a.equal b

def isNegative : Binary64 → Bool
  | .nan => false
  | .infinite s => s
  | .finite s _ => s

def toInt? : Binary64 → Option Int
  | .finite s u => if u % unit = 0 then some (signedUnits s (u / unit)) else none
  | _ => none

def scale (k : Nat) : Binary64 → Binary64
  | .finite s u => ofRatio s (k * u) unit
  | x => x

/-- The nearest whole number of `k`-ths, a tie going to the even one. -/
def roundToParts? (k : Nat) : Binary64 → Option Int
  | .finite s u => some (signedUnits s (roundHalfEven (u * k) unit))
  | _ => none

theorem less_irrefl (a : Binary64) : a.less a = false := by
  unfold less
  cases a.rank? <;> simp [rankLess]

theorem equal_comm (a b : Binary64) : a.equal b = b.equal a := by
  unfold equal
  cases a.rank? <;> cases b.rank? <;> simp [eq_comm]

end Binary64
end VaultSchema
