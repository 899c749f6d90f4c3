import VaultSchema.Text.Blank

set_option autoImplicit false

namespace VaultSchema.Text

variable {α : Type}

def trimList (p : α → Bool) (cs : List α) : List α :=
  (((cs.dropWhile p).reverse).dropWhile p).reverse

def trimEndList (p : α → Bool) (cs : List α) : List α := (cs.reverse.dropWhile p).reverse

def trimBy (p : Char → Bool) (s : String) : String := String.ofList (trimList p s.toList)

def trim (s : String) : String := trimBy isBlank s

def trimStartBy (p : Char → Bool) (s : String) : String := String.ofList (s.toList.dropWhile p)

/-- The pieces between the elements that satisfy `p`, in order; one more than there are such. -/
def splitList (p : α → Bool) : List α → List (List α)
  | [] => [[]]
  | c :: rest =>
    if p c then [] :: splitList p rest
    else
      match splitList p rest with
      | [] => [[c]]
      | piece :: pieces => (c :: piece) :: pieces

theorem splitList_ne_nil (p : α → Bool) (cs : List α) : splitList p cs ≠ [] := by
  cases cs with
  | nil => simp [splitList]
  | cons c rest =>
    unfold splitList
    by_cases h : p c = true
    · simp [h]
    · simp only [h]
      cases splitList p rest <;> simp

theorem splitList_of_all_not (p : α → Bool) {cs : List α} (h : ∀ c ∈ cs, p c = false) :
    splitList p cs = [cs] := by
  induction cs with
  | nil => rfl
  | cons c rest ih =>
    have hc : p c = false := h c (by simp)
    have hrest : ∀ x ∈ rest, p x = false := fun x hx => h x (by simp [hx])
    simp [splitList, hc, ih hrest]

theorem splitList_append (p : α → Bool) {cs rest : List α} {c : α}
    (h : ∀ x ∈ cs, p x = false) (hc : p c = true) :
    splitList p (cs ++ c :: rest) = cs :: splitList p rest := by
  induction cs with
  | nil => simp [splitList, hc]
  | cons x xs ih =>
    have hx : p x = false := h x (by simp)
    have hxs : ∀ y ∈ xs, p y = false := fun y hy => h y (by simp [hy])
    simp [splitList, hx, ih hxs]

def isInfix [BEq α] (needle : List α) : List α → Bool
  | [] => needle.isEmpty
  | c :: rest => needle.isPrefixOf (c :: rest) || isInfix needle rest

theorem isInfix_iff [BEq α] [LawfulBEq α] (needle hay : List α) :
    isInfix needle hay = true ↔ needle <:+: hay := by
  induction hay with
  | nil => simp [isInfix]
  | cons c rest ih => simp [isInfix, ih, List.infix_cons_iff]

def contains (text needle : String) : Bool := isInfix needle.toList text.toList

def beginsWith (text start : String) : Bool := start.toList.isPrefixOf text.toList

def replaceChar (old new : Char) (s : String) : String :=
  String.ofList (s.toList.map fun c => if c == old then new else c)

def isBlankText (s : String) : Bool := s.toList.all isBlank

def padded (width n : Nat) : String :=
  let digits := toString n
  String.ofList (List.replicate (width - digits.length) '0') ++ digits

/-- Ascending order of texts by code points. -/
def sorted (xs : List String) : List String := xs.mergeSort fun a b => !(b < a)

def distinct [BEq α] (xs : List α) : List α :=
  xs.foldl (fun seen x => if seen.contains x then seen else seen ++ [x]) []

end VaultSchema.Text
