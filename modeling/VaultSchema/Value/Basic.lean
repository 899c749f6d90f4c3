import VaultSchema.Calendar.Moment
import VaultSchema.Number.Binary64

/-! The values that notes and definition files hold: scalars, sequences, and mappings with scalar
keys in the order in which they were written. Equality of keys is equality of what they denote, so
that one, one point zero and true are one key. -/

set_option autoImplicit false

namespace VaultSchema

inductive Scalar where
  | null
  | bool (b : Bool)
  | int (i : Int)
  | float (x : Binary64)
  | text (s : String)
  | date (d : Date)
  | moment (m : Moment)
  | bytes (bs : List UInt8)
  deriving DecidableEq, Repr

namespace Scalar

/-- The rank among all numbers, truth values counting as one and zero. -/
def rank? : Scalar → Option (Int × Int)
  | .bool b => some (Binary64.rankOfInt (if b then 1 else 0))
  | .int i => some (Binary64.rankOfInt i)
  | .float x => x.rank?
  | _ => none

/-- Two scalars are one key of a mapping. -/
def sameKey (a b : Scalar) : Bool :=
  match a, b with
  | .null, .null => true
  | .text s, .text t => s == t
  | .date d, .date e => d == e
  | .moment m, .moment n => m.coincides n
  | .bytes s, .bytes t => s == t
  | _, _ =>
    match a.rank?, b.rank? with
    | some x, some y => x == y
    | _, _ => false

@[simp] theorem sameKey_text (s t : String) : sameKey (.text s) (.text t) = (s == t) := rfl

end Scalar

/-- A fixed sequence differs from a list in its notation alone. -/
inductive SequenceKind where
  | list
  | fixed
  deriving DecidableEq, Repr

inductive Value where
  | scalar (s : Scalar)
  | sequence (kind : SequenceKind) (items : List Value)
  | mapping (entries : List (Scalar × Value))
  deriving Repr

namespace Value

instance : Inhabited Scalar := ⟨.null⟩

instance : Inhabited Value := ⟨.scalar .null⟩

@[match_pattern] abbrev null : Value := .scalar .null

@[match_pattern] abbrev bool (b : Bool) : Value := .scalar (.bool b)

@[match_pattern] abbrev int (i : Int) : Value := .scalar (.int i)

@[match_pattern] abbrev float (x : Binary64) : Value := .scalar (.float x)

@[match_pattern] abbrev text (s : String) : Value := .scalar (.text s)

@[match_pattern] abbrev date (d : Date) : Value := .scalar (.date d)

@[match_pattern] abbrev moment (m : Moment) : Value := .scalar (.moment m)

@[match_pattern] abbrev list (items : List Value) : Value := .sequence .list items

def isNull : Value → Bool
  | .null => true
  | _ => false

/-- The name of a value's kind in the vocabulary of field types. -/
def kindName : Value → String
  | .scalar .null => "null"
  | .scalar (.bool _) => "boolean"
  | .scalar (.int _) | .scalar (.float _) => "number"
  | .scalar (.text _) => "string"
  | .scalar (.date _) | .scalar (.moment _) => "date"
  | .scalar (.bytes _) => "bytes"
  | .sequence _ _ => "array"
  | .mapping _ => "object"

end Value

abbrev Entries := List (Scalar × Value)

namespace Entries

def find? (key : Scalar) (entries : Entries) : Option Value :=
  (List.find? (fun e => e.1.sameKey key) entries).map Prod.snd

def get? (name : String) (entries : Entries) : Option Value := find? (.text name) entries

def has (name : String) (entries : Entries) : Bool := entries.any fun e => e.1.sameKey (.text name)

/-- The value of a key that is there already is replaced where it stands; a new key goes to the
end. -/
def insert (key : Scalar) (value : Value) : Entries → Entries
  | [] => [(key, value)]
  | e :: rest => if e.1.sameKey key then (e.1, value) :: rest else e :: insert key value rest

/-- Entries with repeated keys made into a mapping: the first place and spelling of a key stay, the
last value wins. -/
def ofList (pairs : List (Scalar × Value)) : Entries :=
  pairs.foldl (fun m e => insert e.1 e.2 m) []

theorem length_insert_le (key : Scalar) (value : Value) (m : Entries) :
    (insert key value m).length ≤ m.length + 1 := by
  induction m with
  | nil => simp [insert]
  | cons e rest ih =>
    unfold insert
    split <;> simp_all

end Entries

inductive ValueFault where
  /-- An integer beyond the range of doubles is used as one. -/
  | numberTooLarge
  /-- An integer has more decimal digits than are ever written. -/
  | tooManyDigits
  | keyWithoutText
  | unorderedKeys
  | yearOutOfRange
  | notText
  deriving DecidableEq, Repr

end VaultSchema
