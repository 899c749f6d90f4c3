import VaultSchema.Value.Spelling

/-! JSON text of values, in ASCII. Dates, times and bytes are written as texts; keys that are
numbers, truth values or null are written as the text of their value, and other keys have no JSON
text. -/

set_option autoImplicit false

namespace VaultSchema.Json

/-- What stands between members and after keys, and the indentation of a level when every member
takes a line of its own. -/
structure Layout where
  between : String
  afterKey : String
  indent : Option Nat
  sortKeys : Bool

def Layout.compact : Layout := ⟨",", ":", none, false⟩

def Layout.spaced : Layout := ⟨", ", ": ", none, false⟩

def Layout.canonical : Layout := ⟨", ", ": ", none, true⟩

def Layout.indented : Layout := ⟨",", ": ", some 2, false⟩

/-- A code point beyond the basic plane takes two escapes. -/
def unicodeEscape (code : Nat) : String :=
  if code < 0x10000 then "\\u" ++ hexText 4 code
  else
    let rest := code - 0x10000
    "\\u" ++ hexText 4 (0xd800 + rest / 0x400) ++ "\\u" ++ hexText 4 (0xdc00 + rest % 0x400)

def escapeChar (c : Char) : String :=
  if c == '"' then "\\\""
  else if c == '\\' then "\\\\"
  else if c == '\n' then "\\n"
  else if c == '\r' then "\\r"
  else if c == '\t' then "\\t"
  else if c.toNat == 8 then "\\b"
  else if c.toNat == 12 then "\\f"
  else if ' ' ≤ c && c ≤ '~' then c.toString
  else unicodeEscape c.toNat

def quoted (s : String) : String := "\"" ++ String.join (s.toList.map escapeChar) ++ "\""

def numberStyle : Decimal.Style := { Decimal.Style.plain with nan := "NaN", infinity := "Infinity" }

def scalarText : Scalar → Except ValueFault String
  | .null => .ok "null"
  | .bool b => .ok (if b then "true" else "false")
  | .int i => integerText i
  | .float x => .ok (Decimal.text numberStyle x)
  | .text s => .ok (quoted s)
  | s => do return quoted (← s.spelling)

def keyText : Scalar → Except ValueFault String
  | .text s => .ok (quoted s)
  | .null => .ok (quoted "null")
  | .bool b => .ok (quoted (if b then "true" else "false"))
  | .int i => do return quoted (← integerText i)
  | .float x => .ok (quoted (Decimal.text numberStyle x))
  | _ => .error .keyWithoutText

def isTextKey : Scalar → Bool
  | .text _ => true
  | _ => false

def isNumberKey : Scalar → Bool
  | .bool _ | .int _ | .float _ => true
  | _ => false

def keyLess (a b : Scalar) : Bool :=
  match a, b with
  | .text s, .text t => s < t
  | _, _ =>
    match a.rank?, b.rank? with
    | some x, some y => Binary64.rankLess x y
    | _, _ => false

/-- Members in the order of their keys, which must all be texts or all be numbers when there are
two or more. -/
def sortMembers {α : Type} (members : List (Scalar × α)) :
    Except ValueFault (List (Scalar × α)) :=
  if members.length ≤ 1 || members.all (isTextKey ·.1) || members.all (isNumberKey ·.1) then
    .ok (members.mergeSort fun a b => !keyLess b.1 a.1)
  else .error .unorderedKeys

def enclose (layout : Layout) (depth : Nat) (left right : String) (members : List String) :
    String :=
  match members, layout.indent with
  | [], _ => left ++ right
  | _, none => left ++ layout.between.intercalate members ++ right
  | _, some width =>
    let line (d : Nat) := "\n" ++ String.ofList (List.replicate (width * d) ' ')
    left ++ line (depth + 1) ++ (layout.between ++ line (depth + 1)).intercalate members
      ++ line depth ++ right

def memberText (layout : Layout) (member : Scalar × Except ValueFault String) :
    Except ValueFault String := do
  let key ← keyText member.1
  let value ← member.2
  return key ++ layout.afterKey ++ value

mutual

def writeAt (layout : Layout) (depth : Nat) : Value → Except ValueFault String
  | .scalar s => scalarText s
  | .sequence _ items => do
    return enclose layout depth "[" "]" (← collect (writeItems layout (depth + 1) items))
  | .mapping entries => do
    let members := writeEntries layout (depth + 1) entries
    let members ← if layout.sortKeys then sortMembers members else .ok members
    return enclose layout depth "\x7b" "\x7d" (← collect (members.map (memberText layout)))

def writeItems (layout : Layout) (depth : Nat) : List Value → List (Except ValueFault String)
  | [] => []
  | v :: rest => writeAt layout depth v :: writeItems layout depth rest

def writeEntries (layout : Layout) (depth : Nat) :
    List (Scalar × Value) → List (Scalar × Except ValueFault String)
  | [] => []
  | (k, v) :: rest => (k, writeAt layout depth v) :: writeEntries layout depth rest

end

def write (layout : Layout) (v : Value) : Except ValueFault String := writeAt layout 0 v

end VaultSchema.Json
