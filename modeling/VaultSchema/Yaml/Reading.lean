import VaultSchema.Yaml.Node

/-! The values that YAML documents denote. The pairs of a merged mapping come first, so that the
pairs written beside it win, and of several merged mappings the earlier wins. Kinds that are not
common ones have no value. -/

set_option autoImplicit false

namespace VaultSchema.Yaml

inductive YamlFault where
  /-- The text is not YAML, or holds what has no value. -/
  | malformed
  | unknownTruthWord
  | notATime
  | emptyNumber
  deriving DecidableEq, Repr

namespace Typed

def orMalformed {α : Type} : Option α → Except YamlFault α
  | some a => .ok a
  | none => .error .malformed

def inBase? (base : Nat) (cs : List Char) : Option Nat :=
  if cs.isEmpty then none
  else cs.foldl (fun n c => do
    let d ← Json.hexValue? c
    if d < base then some ((← n) * base + d) else none) (some 0)

def decimal? (cs : List Char) : Option Int :=
  if greatestDigitCount < cs.length then none else Decimal.readLooseInt? (String.ofList cs)

/-- Integers in base two, sixteen, eight (with a zero in front), in sixties, or in base ten. -/
def readInt (s : String) : Except YamlFault Int := do
  let cs := s.toList.filter (· != '_')
  if cs.isEmpty then .error .emptyNumber
  else
    let (negative, body) := Decimal.splitSign cs
    let n ← orMalformed <|
      match body with
      | ['0'] => some (0 : Int)
      | '0' :: 'b' :: rest => (inBase? 2 rest).map Int.ofNat
      | '0' :: 'x' :: rest => (inBase? 16 rest).map Int.ofNat
      | '0' :: rest => (inBase? 8 ('0' :: rest)).map Int.ofNat
      | [] => none
      | _ =>
        if body.contains ':' then
          (Text.splitList (· == ':') body).foldl
            (fun n part => do return (← n) * 60 + (← decimal? part)) (some 0)
        else decimal? body
    return if negative then -n else n

def negate : Binary64 → Binary64
  | .nan => .nan
  | .infinite s => .infinite !s
  | .finite s u => .finite (!s) u

/-- The nearest double to a sum of doubles that are not negative. -/
def addUnits (a b : Binary64) : Binary64 :=
  match a, b with
  | .finite _ u, .finite _ v => Binary64.ofRatio false (u + v) Binary64.unit
  | .infinite s, .finite _ _ => .infinite s
  | .finite _ _, .infinite s => .infinite s
  | .infinite s, .infinite t => if s == t then .infinite s else .nan
  | _, _ => .nan

def sixties (total : Binary64) (weight : Nat) : List Binary64 → Binary64
  | [] => total
  | p :: rest => sixties (addUnits total (p.scale weight)) (weight * 60) rest

def readFloat (s : String) : Except YamlFault Binary64 := do
  let cs := (s.toList.filter (· != '_')).map Char.toLower
  if cs.isEmpty then .error .emptyNumber
  else
    let (negative, body) := Decimal.splitSign cs
    let text := String.ofList body
    let x ← orMalformed <|
      if text == ".inf" then some (.infinite false)
      else if text == ".nan" then some .nan
      else if body.contains ':' then
        ((Text.splitList (· == ':') body).mapM fun p =>
          Decimal.readLoose? (String.ofList p)).map fun ps => sixties Binary64.zero 1 ps.reverse
      else Decimal.readLoose? text
    return if negative then negate x else x

def sextet? (c : Char) : Option Nat :=
  if 'A' ≤ c && c ≤ 'Z' then some (c.toNat - 'A'.toNat)
  else if 'a' ≤ c && c ≤ 'z' then some (c.toNat - 'a'.toNat + 26)
  else if '0' ≤ c && c ≤ '9' then some (c.toNat - '0'.toNat + 52)
  else if c == '+' then some 62
  else if c == '/' then some 63
  else none

/-- Bytes in base 64. Characters outside the alphabet are passed over, and the reading stops where
padding completes a group; `held` counts the sextets of the group so far and `bits` holds what is
not yet written of them. -/
def base64? (held bits pads : Nat) : List Char → Option (List UInt8)
  | [] => if held == 0 then some [] else none
  | c :: rest =>
    if c == '=' then
      if 2 ≤ held && 4 ≤ held + pads + 1 then some []
      else base64? held bits (if 2 ≤ held then pads + 1 else pads) rest
    else
      match sextet? c with
      | none => base64? held bits pads rest
      | some n =>
        match held with
        | 0 => base64? 1 n 0 rest
        | 1 => (base64? 2 (n % 16) 0 rest).map (UInt8.ofNat (bits * 4 + n / 16) :: ·)
        | 2 => (base64? 3 (n % 4) 0 rest).map (UInt8.ofNat (bits * 16 + n / 4) :: ·)
        | _ => (base64? 0 0 0 rest).map (UInt8.ofNat (bits * 64 + n) :: ·)

def readBytes (s : String) : Except YamlFault (List UInt8) :=
  if s.toList.all fun c => c.toNat < 128 then orMalformed (base64? 0 0 0 s.toList)
  else .error .malformed

def readTruth (s : String) : Except YamlFault Bool :=
  match Plain.truthWords.find? fun w => w.1 == String.ofList (s.toList.map Char.toLower) with
  | some (_, b) => .ok b
  | none => .error .unknownTruthWord

def readTime (s : String) : Except YamlFault Scalar :=
  match WrittenTime.read? s with
  | some t => orMalformed t.toScalar?
  | none => .error .notATime

def read (tag : Tag) (s : String) : Except YamlFault Scalar :=
  match tag with
  | .null => .ok .null
  | .bool => do return .bool (← readTruth s)
  | .int => do return .int (← readInt s)
  | .float => do return .float (← readFloat s)
  | .timestamp => readTime s
  | .binary => do return .bytes (← readBytes s)
  | .text => .ok (.text s)
  | _ => .error .malformed

end Typed

def keyOf (v : Value) : Except YamlFault Scalar :=
  match v with
  | .scalar s => .ok s
  | _ => .error .malformed

namespace Node

def isMergeKey : Node → Bool
  | .scalar .merge _ => true
  | _ => false

/-- Pairs of a mapping before repeated keys are joined: those merged in, and those written. -/
structure Pairs where
  merged : List (Scalar × Value)
  written : List (Scalar × Value)

def Pairs.all (p : Pairs) : List (Scalar × Value) := p.merged ++ p.written

mutual

def toValue : Node → Except YamlFault Value
  | .scalar tag s => do return .scalar (← Typed.read tag s)
  | .sequence .sequence items => do return .list (← toValues items)
  | .sequence .orderedMap items => do return .list (← toPairs items)
  | .sequence .pairs items => do return .list (← toPairs items)
  | .sequence _ _ => .error .malformed
  | .mapping .mapping pairs => do return .mapping (Entries.ofList (← toEntries pairs).all)
  | .mapping .set pairs => do return .mapping (Entries.ofList (← toEntries pairs).all)
  | .mapping _ _ => .error .malformed

def toValues : List Node → Except YamlFault (List Value)
  | [] => .ok []
  | n :: rest => do
    let v ← toValue n
    let vs ← toValues rest
    return v :: vs

def toPairs : List Node → Except YamlFault (List Value)
  | [] => .ok []
  | .mapping _ [(k, v)] :: rest => do
    let key ← toValue k
    let value ← toValue v
    let others ← toPairs rest
    return .sequence .fixed [key, value] :: others
  | _ :: _ => .error .malformed

/-- A plain equals sign that is a key is a text. -/
def toKey : Node → Except YamlFault Scalar
  | .scalar .value s => .ok (.text s)
  | n => do keyOf (← toValue n)

def toEntries : List (Node × Node) → Except YamlFault Pairs
  | [] => .ok ⟨[], []⟩
  | (k, v) :: rest => do
    if k.isMergeKey then
      let merged ← mergedFrom v
      let others ← toEntries rest
      return ⟨merged ++ others.merged, others.written⟩
    else
      let key ← toKey k
      let value ← toValue v
      let others ← toEntries rest
      return ⟨others.merged, (key, value) :: others.written⟩

/-- What a merge key brings in: a mapping, or several with the last first. -/
def mergedFrom : Node → Except YamlFault (List (Scalar × Value))
  | .mapping _ pairs => do return (← toEntries pairs).all
  | .sequence _ items => mergedFromAll items
  | .scalar _ _ => .error .malformed

def mergedFromAll : List Node → Except YamlFault (List (Scalar × Value))
  | [] => .ok []
  | .mapping _ pairs :: rest => do
    let here ← toEntries pairs
    let others ← mergedFromAll rest
    return others ++ here.all
  | _ :: _ => .error .malformed

end

end Node

def read (dialect : Dialect) (text : String) : Except YamlFault Value :=
  match Node.ofText? dialect text with
  | none => .error .malformed
  | some none => .ok .null
  | some (some node) => node.toValue

end VaultSchema.Yaml
