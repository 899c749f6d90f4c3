import VaultSchema.Text.Basic

/-! Markup for a screen: words in square brackets open styles, and a slash closes one. On a screen
without styles only the text is left. A close without an open is a fault, an open without a close is
none. A backslash before a bracket takes the meaning from it. -/

set_option autoImplicit false

namespace VaultSchema.Markup

inductive Piece where
  | text (cs : List Char)
  /-- Text with its backslashes already taken off. -/
  | plain (cs : List Char)
  | mark (name : String)
  deriving DecidableEq, Repr

def beginsMark (c : Char) : Bool := ('a' ≤ c && c ≤ 'z') || c == '#' || c == '/' || c == '@'

def inside? : List Char → Option (List Char × List Char)
  | [] => none
  | ']' :: rest => some ([], rest)
  | '[' :: _ => none
  | c :: rest => (inside? rest).map fun (cs, after) => (c :: cs, after)

def mark? : List Char → Option (List Char × List Char)
  | '[' :: c :: rest => if beginsMark c then inside? (c :: rest) else none
  | _ => none

theorem inside?_length {cs inner rest : List Char} (h : inside? cs = some (inner, rest)) :
    rest.length < cs.length := by
  fun_induction inside? cs generalizing inner rest with
  | case1 => simp at h
  | case2 => simp_all
  | case3 => simp at h
  | case4 c cs _ _ ih =>
    obtain ⟨⟨a, b⟩, found, eq⟩ := Option.map_eq_some_iff.1 h
    obtain ⟨-, rfl⟩ := Prod.mk.inj eq
    have := ih found
    simp only [List.length_cons]
    omega

theorem mark?_length {cs inner rest : List Char} (h : mark? cs = some (inner, rest)) :
    rest.length < cs.length := by
  unfold mark? at h
  split at h
  · split at h
    · have := inside?_length h
      simp only [List.length_cons] at this ⊢
      omega
    · simp at h
  · simp at h

def backslashes (cs : List Char) : Nat := (cs.takeWhile (· == '\\')).length

/-- What a mark with backslashes before it stands for. Two of them are one that is shown; one that is
left over makes the mark a text. -/
def markPieces (count : Nat) (inner : List Char) : List Piece :=
  .plain (List.replicate (count / 2) '\\') ::
    [if count % 2 = 1 then .plain ('[' :: inner ++ [']'])
      else .mark (String.ofList (inner.takeWhile (· != '=')))]

def pieces (cs : List Char) : List Piece :=
  match cs with
  | [] => []
  | c :: rest =>
    let count := backslashes (c :: rest)
    match found : mark? ((c :: rest).drop count) with
    | some (inner, after) => markPieces count inner ++ pieces after
    | none => .text ((c :: rest).take (count + 1)) :: pieces (rest.drop count)
termination_by cs.length
decreasing_by
  · have := mark?_length found
    simp only [List.length_drop, List.length_cons] at this ⊢
    omega
  · simp only [List.length_drop, List.length_cons]
    omega

def joinTexts : List Piece → List Piece
  | [] => []
  | .text cs :: rest =>
    match joinTexts rest with
    | .text ds :: others => .text (cs ++ ds) :: others
    | others => .text cs :: others
  | p :: rest => p :: joinTexts rest

/-- A backslash is taken off a bracket that opens no mark. -/
def unescape : List Char → List Char
  | [] => []
  | '\\' :: '[' :: rest => '[' :: unescape rest
  | c :: rest => c :: unescape rest

def shortNames : List (String × String) :=
  [("b", "bold"), ("d", "dim"), ("i", "italic"), ("u", "underline"), ("r", "reverse"), ("c", "conceal"),
    ("o", "overline"), ("s", "strike"), ("uu", "underline2")]

def styleName (s : String) : String :=
  let name := String.ofList ((Text.trim s).toList.map Char.toLower)
  ((shortNames.find? fun e => e.1 == name).map Prod.snd).getD name

def close? (name : String) : List String → Option (List String)
  | [] => none
  | s :: rest =>
    if name == "" || s == name then some rest else (close? name rest).map (s :: ·)

def textFrom? (stack : List String) : List Piece → Option (List Char)
  | [] => some []
  | .text cs :: rest => (textFrom? stack rest).map (unescape cs ++ ·)
  | .plain cs :: rest => (textFrom? stack rest).map (cs ++ ·)
  | .mark name :: rest =>
    match name.toList with
    | '/' :: closed => do textFrom? (← close? (styleName (String.ofList closed)) stack) rest
    | _ => textFrom? (styleName name :: stack) rest

def isControl (c : Char) : Bool := [7, 8, 11, 12, 13].contains c.toNat

def text? (markup : String) : Option String :=
  let cs := markup.toList
  let shown := if cs.contains '[' then textFrom? [] (joinTexts (pieces cs)) else some cs
  shown.map fun cs => String.ofList (cs.filter (!isControl ·))

end VaultSchema.Markup
