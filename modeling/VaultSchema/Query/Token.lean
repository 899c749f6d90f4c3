import VaultSchema.Text.Basic

/-! Tokens of queries. What is not blank and no keyword is a word; a double quote at the start of a
token makes it a word in any case, with a backslash in front of a quote that belongs to it. -/

set_option autoImplicit false

namespace VaultSchema.Query

inductive TokenKind where
  | and
  | or
  | not
  | word
  | finish
  deriving DecidableEq, Repr

def TokenKind.name : TokenKind → String
  | .and => "AND"
  | .or => "OR"
  | .not => "NOT"
  | .word => "WORD"
  | .finish => "EOF"

/-- A token and the column at which it begins, the first being one. -/
structure Token where
  kind : TokenKind
  value : String
  column : Nat
  quoted : Bool := false
  deriving DecidableEq, Repr

inductive QueryFault where
  | unterminatedQuote (column : Nat)
  | missingTagName (column : Nat)
  deriving DecidableEq, Repr

def QueryFault.message : QueryFault → String
  | .unterminatedQuote c => s!"Unterminated quoted term at column {c}"
  | .missingTagName c => s!"Expected tag name after '#' at column {c}"

def kindOf (word : List Char) : TokenKind :=
  match String.ofList (word.map Char.toUpper) with
  | "AND" => .and
  | "OR" => .or
  | "NOT" => .not
  | _ => .word

def isInWord (c : Char) : Bool := !Text.isBlank c

def readQuoted? : List Char → Option (List Char × List Char)
  | [] => none
  | '"' :: rest => some ([], rest)
  | '\\' :: c :: rest => (readQuoted? rest).map fun (text, after) => (c :: text, after)
  | c :: rest => (readQuoted? rest).map fun (text, after) => (c :: text, after)

theorem readQuoted?_length {cs text after : List Char} (h : readQuoted? cs = some (text, after)) :
    after.length < cs.length := by
  fun_induction readQuoted? cs generalizing text after with
  | case1 => simp at h
  | case2 rest => simp_all
  | case3 c rest ih =>
    obtain ⟨⟨t, a⟩, found, eq⟩ := Option.map_eq_some_iff.1 h
    have := ih found
    simp_all
    omega
  | case4 c rest _ _ ih =>
    obtain ⟨⟨t, a⟩, found, eq⟩ := Option.map_eq_some_iff.1 h
    have := ih found
    simp_all
    omega

theorem length_dropWhile_le (p : Char → Bool) (cs : List Char) :
    (cs.dropWhile p).length ≤ cs.length := (List.dropWhile_sublist p).length_le

def tokensFrom (size : Nat) (cs : List Char) : Except QueryFault (List Token) :=
  match _start : cs.dropWhile Text.isBlank with
  | [] => .ok [⟨.finish, "", size + 1, false⟩]
  | '"' :: quoted =>
    let column := size - quoted.length
    match _read : readQuoted? quoted with
    | none => .error (.unterminatedQuote column)
    | some (text, after) => do
      let word := text ++ after.takeWhile isInWord
      let rest ← tokensFrom size (after.dropWhile isInWord)
      return ⟨.word, String.ofList word, column, true⟩ :: rest
  | c :: more => do
    let word := c :: more.takeWhile isInWord
    let rest ← tokensFrom size (more.dropWhile isInWord)
    return ⟨kindOf word, String.ofList word, size - more.length, false⟩ :: rest
termination_by cs.length
decreasing_by
  all_goals
    have front := length_dropWhile_le Text.isBlank cs
    rw [_start] at front
    simp only [List.length_cons] at front
  · have := readQuoted?_length _read
    have := length_dropWhile_le isInWord after
    omega
  · have := length_dropWhile_le isInWord more
    omega

def tokenize (text : String) : Except QueryFault (List Token) := tokensFrom text.length text.toList

end VaultSchema.Query
