/-! Classes of characters given by the code points at which membership changes: a character belongs
to the class when an odd number of those points is at or below it. -/

set_option autoImplicit false

namespace VaultSchema

/-- Ascending code points; the class begins at the first, ends before the second, and so on. -/
structure CharClass where
  changes : Array Nat

namespace CharClass

/-- How many entries at the front, between `low` and `high`, are at or below `c`. -/
def countFrom (changes : Array Nat) (c : Nat) : Nat → Nat → Nat → Nat
  | 0, low, _ => low
  | fuel + 1, low, high =>
    if low < high then
      let middle := (low + high) / 2
      if changes.getD middle 0 ≤ c then countFrom changes c fuel (middle + 1) high
      else countFrom changes c fuel low middle
    else low

/-- Halving once per binary digit of the table's size is enough to close the interval. -/
def contains (k : CharClass) (c : Char) : Bool :=
  countFrom k.changes c.toNat (k.changes.size.log2 + 2) 0 k.changes.size % 2 == 1

end CharClass
end VaultSchema
