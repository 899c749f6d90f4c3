import VaultSchema.Value.Spelling
import VaultSchema.Text.Case

/-! Look-up of keys without regard to case. Keys that are not texts go by their spelling; of keys
that differ in case alone the first counts. -/

set_option autoImplicit false

namespace VaultSchema

structure FoldedKeys where
  entries : List (String × Scalar × Value)

namespace FoldedKeys

def ofEntries : Entries → Except ValueFault FoldedKeys
  | [] => .ok ⟨[]⟩
  | (key, value) :: rest => do
    let name ← key.spelling
    let others ← ofEntries rest
    return ⟨(Text.lower name, key, value) :: others.entries⟩

def find? (keys : FoldedKeys) (name : String) : Option (Scalar × Value) :=
  (keys.entries.find? (·.1 == Text.lower name)).map Prod.snd

/-- The value under a name. A null key has a spelling, but nothing is under it. -/
def value? (keys : FoldedKeys) (name : String) : Option Value :=
  match keys.find? name with
  | none | some (.null, _) => none
  | some (_, v) => some v

def has (keys : FoldedKeys) (name : String) : Bool := (keys.find? name).isSome

end FoldedKeys
end VaultSchema
