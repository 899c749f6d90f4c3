import VaultSchema.Text.Case

set_option autoImplicit false

namespace VaultSchema.Pattern

/-- How far case is disregarded: not at all, for the letters of ASCII, or for all letters. -/
inductive Folding where
  | none
  | ascii
  | full
  deriving DecidableEq, Repr

/-- Small letters that share a capital. -/
def sharedCapitals : List (List Nat) :=
  [
    [0x69, 0x131], [0x73, 0x17f], [0xb5, 0x3bc], [0x345, 0x3b9, 0x1fbe], [0x390, 0x1fd3],
    [0x3b0, 0x1fe3], [0x3b2, 0x3d0], [0x3b5, 0x3f5], [0x3b8, 0x3d1], [0x3ba, 0x3f0],
    [0x3c0, 0x3d6], [0x3c1, 0x3f1], [0x3c2, 0x3c3], [0x3c6, 0x3d5], [0x432, 0x1c80],
    [0x434, 0x1c81], [0x43e, 0x1c82], [0x441, 0x1c83], [0x442, 0x1c84, 0x1c85], [0x44a, 0x1c86],
    [0x463, 0x1c87], [0x1c88, 0xa64b], [0x1e61, 0x1e9b], [0xfb05, 0xfb06]
  ]

namespace Folding

def small (f : Folding) (c : Char) : Nat :=
  match f with
  | .none => c.toNat
  | .ascii => c.toLower.toNat
  | .full => (Text.lowerChar c).toNat

def smallLetters (f : Folding) (c : Nat) : List Nat :=
  match f with
  | .full => (sharedCapitals.find? (·.contains c)).getD [c]
  | _ => [c]

def variants (f : Folding) (c : Char) : List Nat :=
  (f.smallLetters (f.small c)).flatMap fun s =>
    match f with
    | .none => [s]
    | .ascii => if 97 ≤ s && s ≤ 122 then [s, s - 32] else [s]
    | .full => s :: Text.capitalCodes s

end Folding
end VaultSchema.Pattern
