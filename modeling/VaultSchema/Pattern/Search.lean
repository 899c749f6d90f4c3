import VaultSchema.Pattern.Node

/-! The search for a pattern in a text. A part is tried where it stands, with what must follow it
given as a function; the first way in which everything fits is the match. A repetition goes on past
its least number only after it has taken something, so the text bounds it. -/

set_option autoImplicit false

namespace VaultSchema.Pattern

structure Place where
  /-- Nearest first. -/
  before : List Char
  after : List Char
  position : Nat
  captures : List (Nat × List Char) := []
  deriving DecidableEq, Repr

namespace Place

def step? (p : Place) : Option (Char × Place) :=
  match p.after with
  | [] => none
  | c :: rest => some (c, { p with before := c :: p.before, after := rest, position := p.position + 1 })

def back? (p : Place) (width : Nat) : Option Place :=
  if width ≤ p.position then
    some { p with
      before := p.before.drop width
      after := (p.before.take width).reverse ++ p.after
      position := p.position - width }
  else none

def captured? (p : Place) (index : Nat) : Option (List Char) :=
  (p.captures.find? (·.1 == index)).map Prod.snd

def capture (index : Nat) (start p : Place) : Place :=
  { p with captures := (index, start.after.take (p.position - start.position)) :: p.captures }

end Place

def isWordAt (ascii : Bool) (cs : List Char) : Bool :=
  match cs with
  | [] => false
  | c :: _ => CharKind.word.holds ascii c

def Anchor.holds (p : Place) : Anchor → Bool
  | .textStart => p.before.isEmpty
  | .lineStart => p.before.isEmpty || p.before.head? == some '\n'
  | .textEnd => p.after.isEmpty
  | .lastLineEnd => p.after.isEmpty || p.after == ['\n']
  | .lineEnd => p.after.isEmpty || p.after.head? == some '\n'
  | .wordBoundary ascii => isWordAt ascii p.before != isWordAt ascii p.after
  | .noWordBoundary ascii =>
    !(p.before.isEmpty && p.after.isEmpty) && isWordAt ascii p.before == isWordAt ascii p.after

def readAgain? (f : Folding) : List Char → Place → Option Place
  | [], p => some p
  | c :: rest, p =>
    match p.step? with
    | some (d, q) => if f.small c == f.small d then readAgain? f rest q else none
    | none => none

abbrev Follow := Place → Option Place

abbrev Matcher := Follow → Follow

def exactly (body : Matcher) : Nat → Matcher
  | 0, k => k
  | n + 1, k => body (exactly body n k)

def mayGoOn (most : Option Nat) (count : Nat) : Bool := most.all (count < ·)

/-- Further repetitions first; `last` is where the one before began. -/
def greedily (body : Matcher) (most : Option Nat) (k : Follow) :
    (fuel : Nat) → (count : Nat) → (last : Option Nat) → Follow
  | 0, _, _, p => k p
  | fuel + 1, count, last, p =>
    if mayGoOn most count && last != some p.position then
      match body (greedily body most k fuel (count + 1) (some p.position)) p with
      | some q => some q
      | none => k p
    else k p

def lazily (body : Matcher) (most : Option Nat) (k : Follow) :
    (fuel : Nat) → (count : Nat) → (last : Option Nat) → Follow
  | 0, _, _, p => k p
  | fuel + 1, count, last, p =>
    match k p with
    | some q => some q
    | none =>
      if mayGoOn most count && last != some p.position then
        body (lazily body most k fuel (count + 1) (some p.position)) p
      else none

def possessively (body : Matcher) (most : Option Nat) :
    (fuel : Nat) → (count : Nat) → (last : Option Nat) → Place → Place
  | 0, _, _, p => p
  | fuel + 1, count, last, p =>
    if mayGoOn most count && last != some p.position then
      match body some p with
      | some q => possessively body most fuel (count + 1) (some p.position) q
      | none => p
    else p

def Node.run : Node → Matcher
  | .empty, k, p => k p
  | .char set, k, p =>
    match p.step? with
    | some (c, q) => if set.holds c then k q else none
    | none => none
  | .anchor a, k, p => if a.holds p then k p else none
  | .seq a b, k, p => a.run (b.run k) p
  | .alt a b, k, p =>
    match a.run k p with
    | some q => some q
    | none => b.run k p
  | .capture i b, k, p => b.run (fun q => k (Place.capture i p q)) p
  | .repeated least most .greedy b, k, p =>
    exactly b.run least (fun q => greedily b.run most k (q.after.length + 2) least none q) p
  | .repeated least most .lazy b, k, p =>
    exactly b.run least (fun q => lazily b.run most k (q.after.length + 2) least none q) p
  | .repeated least most .possessive b, k, p =>
    match exactly (fun k p => (b.run some p).bind k) least some p with
    | some q => k (possessively b.run most (q.after.length + 2) least none q)
    | none => none
  | .atomic b, k, p => (b.run some p).bind k
  | .ahead negated b, k, p =>
    match b.run some p, negated with
    | some q, false => k { p with captures := q.captures }
    | none, true => k p
    | _, _ => none
  | .behind negated width b, k, p =>
    match (p.back? width).bind fun q => b.run some q, negated with
    | some q, false => k { p with captures := q.captures }
    | none, true => k p
    | _, _ => none
  | .again i f, k, p =>
    match p.captured? i with
    | some cs => (readAgain? f cs p).bind k
    | none => none
  | .ifCaptured i y n, k, p => if (p.captured? i).isSome then y.run k p else n.run k p

def Node.occursFrom (pattern : Node) (before : List Char) (position : Nat) : List Char → Bool
  | [] => (pattern.run some ⟨before, [], position, []⟩).isSome
  | c :: rest =>
    (pattern.run some ⟨before, c :: rest, position, []⟩).isSome
      || pattern.occursFrom (c :: before) (position + 1) rest

def Node.occursIn (pattern : Node) (text : String) : Bool := pattern.occursFrom [] 0 text.toList

end VaultSchema.Pattern
