set_option autoImplicit false

namespace VaultSchema.Yaml

structure Cursor where
  rest : List Char
  index : Nat
  line : Nat
  column : Nat

def nul : Char := Char.ofNat 0

/-- The characters that end a line; a carriage return with a line feed is one end. -/
def isBreak (c : Char) : Bool :=
  c == '\n' || c == '\r' || c.toNat == 0x85 || c.toNat == 0x2028 || c.toNat == 0x2029

def isBreakOrEnd (c : Char) : Bool := isBreak c || c == nul

def isTabOrBlank (c : Char) : Bool := c == ' ' || c == '\t'

def isSpaceOrEnd (c : Char) : Bool := isTabOrBlank c || isBreakOrEnd c

def byteOrderMark : Char := Char.ofNat 0xfeff

def isNameChar (c : Char) : Bool := c.isAlphanum || c == '-' || c == '_'

namespace Cursor

def start (cs : List Char) : Cursor := ⟨cs, 0, 0, 0⟩

def peekAt (c : Cursor) (k : Nat) : Char := c.rest.getD k nul

def peek (c : Cursor) : Char := c.peekAt 0

def advance (c : Cursor) : Cursor :=
  match c.rest with
  | [] => c
  | ch :: rest =>
    if isBreak ch && !(ch == '\r' && rest.head? == some '\n') then
      ⟨rest, c.index + 1, c.line + 1, 0⟩
    else if ch == byteOrderMark then ⟨rest, c.index + 1, c.line, c.column⟩
    else ⟨rest, c.index + 1, c.line, c.column + 1⟩

def advanceBy : Nat → Cursor → Cursor
  | 0, c => c
  | n + 1, c => advanceBy n c.advance

def takeWhile (p : Char → Bool) (c : Cursor) : List Char × Cursor :=
  let taken := c.rest.takeWhile p
  (taken, c.advanceBy taken.length)

def dropWhile (p : Char → Bool) (c : Cursor) : Cursor := (c.takeWhile p).2

def lineBreak? (c : Cursor) : Option (Char × Cursor) :=
  let ch := c.peek
  if ch.toNat == 0x2028 || ch.toNat == 0x2029 then some (ch, c.advance)
  else if isBreak ch then
    some ('\n', if ch == '\r' && c.peekAt 1 == '\n' then c.advanceBy 2 else c.advance)
  else none

/-- Three hyphens, or three points, with a blank or an end behind them. -/
def atMark (mark : Char) (c : Cursor) : Bool :=
  c.peek == mark && c.peekAt 1 == mark && c.peekAt 2 == mark && isSpaceOrEnd (c.peekAt 3)

def atDocumentMark (c : Cursor) : Bool := c.atMark '-' || c.atMark '.'

theorem advance_rest (c : Cursor) : c.advance.rest = c.rest.tail := by
  unfold advance
  cases h : c.rest with
  | nil => simp [h]
  | cons ch rest =>
    simp only [List.tail_cons]
    split
    · rfl
    · split <;> rfl

theorem advance_rest_length (c : Cursor) : c.advance.rest.length = c.rest.length - 1 := by
  simp [advance_rest]

theorem advanceBy_rest (n : Nat) (c : Cursor) : (advanceBy n c).rest = c.rest.drop n := by
  induction n generalizing c with
  | zero => simp [advanceBy]
  | succ n ih => simp [advanceBy, ih, advance_rest]

theorem takeWhile_append (p : Char → Bool) (c : Cursor) :
    (c.takeWhile p).1 ++ (c.takeWhile p).2.rest = c.rest := by
  have h : c.rest.takeWhile p ++ c.rest.dropWhile p = c.rest := List.takeWhile_append_dropWhile
  simp only [takeWhile, advanceBy_rest]
  calc c.rest.takeWhile p ++ c.rest.drop (c.rest.takeWhile p).length
      = c.rest.takeWhile p ++
          (c.rest.takeWhile p ++ c.rest.dropWhile p).drop (c.rest.takeWhile p).length := by rw [h]
    _ = c.rest := by rw [List.drop_left, h]

end Cursor
end VaultSchema.Yaml
