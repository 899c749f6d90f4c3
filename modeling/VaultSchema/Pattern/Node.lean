import VaultSchema.Pattern.Folding
import VaultSchema.Text.Blank
import VaultSchema.Text.Digit
import VaultSchema.Text.Word

/-! Patterns of texts. A pattern is read from its written form in `Pattern.Reading` and looked for
in a text in `Pattern.Search`; here are its parts, the tests of single characters, and the number of
characters that a part can take up. -/

set_option autoImplicit false

namespace VaultSchema.Pattern

inductive CharKind where
  | digit
  | blank
  | word
  deriving DecidableEq, Repr

def CharKind.holds (k : CharKind) (ascii : Bool) (c : Char) : Bool :=
  match k, ascii with
  | .digit, true => c.isDigit
  | .digit, false => Text.isDecimalDigit c
  | .blank, true => c == ' ' || (9 ≤ c.toNat && c.toNat ≤ 13)
  | .blank, false => Text.isBlank c
  | .word, true => Text.isAsciiWord c
  | .word, false => Text.isWord c

/-- One member of a set of characters. Codes need not be those of characters. -/
inductive CharTest where
  | code (n : Nat)
  | range (low high : Nat)
  | kind (k : CharKind) (negated ascii : Bool)
  deriving DecidableEq, Repr

def CharTest.holds (f : Folding) (c : Char) : CharTest → Bool
  | .code n => (f.variants c).contains n
  | .range low high => (f.variants c).any fun n => low ≤ n && n ≤ high
  | .kind k negated ascii => k.holds ascii c != negated

structure CharSet where
  tests : List CharTest
  negated : Bool := false
  folding : Folding := .none
  deriving DecidableEq, Repr

def CharSet.holds (s : CharSet) (c : Char) : Bool := s.tests.any (·.holds s.folding c) != s.negated

inductive Anchor where
  | textStart
  | lineStart
  | textEnd
  /-- The end, or a line end that is the last character. -/
  | lastLineEnd
  | lineEnd
  | wordBoundary (ascii : Bool)
  | noWordBoundary (ascii : Bool)
  deriving DecidableEq, Repr

inductive Eagerness where
  | greedy
  | lazy
  | possessive
  deriving DecidableEq, Repr

inductive Node where
  | empty
  | char (set : CharSet)
  | anchor (a : Anchor)
  | seq (first second : Node)
  | alt (first second : Node)
  | capture (index : Nat) (body : Node)
  | repeated (least : Nat) (most : Option Nat) (eagerness : Eagerness) (body : Node)
  /-- Taken as it matches first, never otherwise. -/
  | atomic (body : Node)
  | ahead (negated : Bool) (body : Node)
  /-- What ends here and takes up `width` characters. -/
  | behind (negated : Bool) (width : Nat) (body : Node)
  | again (index : Nat) (folding : Folding)
  | ifCaptured (index : Nat) (yes no : Node)
  deriving Repr

/-- The least and the greatest number of characters that a part takes up. -/
structure Width where
  least : Nat
  most : Option Nat
  deriving DecidableEq, Repr

namespace Width

def zero : Width := ⟨0, some 0⟩

def one : Width := ⟨1, some 1⟩

def add (a b : Width) : Width := ⟨a.least + b.least, (a.most.bind fun x => b.most.map (x + ·))⟩

def either (a b : Width) : Width :=
  ⟨min a.least b.least, (a.most.bind fun x => b.most.map (max x ·))⟩

def times (least : Nat) (most : Option Nat) (w : Width) : Width :=
  ⟨least * w.least,
    match w.most, most with
    | some 0, _ => some 0
    | some k, some n => some (n * k)
    | _, _ => none⟩

/-- The number of characters, if all matches have the same. -/
def fixed? (w : Width) : Option Nat := if w.most = some w.least then some w.least else none

end Width

def Node.width (captures : Nat → Width) : Node → Width
  | .empty | .anchor _ | .ahead _ _ | .behind _ _ _ => .zero
  | .char _ => .one
  | .seq a b => (a.width captures).add (b.width captures)
  | .alt a b => (a.width captures).either (b.width captures)
  | .capture _ b | .atomic b => b.width captures
  | .repeated least most _ b => (b.width captures).times least most
  | .again i _ => captures i
  | .ifCaptured _ y n => (y.width captures).either (n.width captures)

end VaultSchema.Pattern
