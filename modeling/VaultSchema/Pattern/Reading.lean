import VaultSchema.Number.LooseReading
import VaultSchema.Pattern.Node

/-! Reading of written patterns. Outside sets a backslash and the character behind it are one token.
The mode of a group holds until the group ends. The names of characters are not known, so an escape
by name, `\N{...}`, is malformed whatever it names. -/

set_option autoImplicit false

namespace VaultSchema.Pattern

inductive PatternFault where
  | malformed
  | countTooLarge
  | conflictingModes
  deriving DecidableEq, Repr

inductive Token where
  | plain (c : Char)
  | escaped (c : Char)
  | dangling
  deriving DecidableEq, Repr

def tokens : List Char → List Token
  | [] => []
  | ['\\'] => [.dangling]
  | '\\' :: c :: rest => .escaped c :: tokens rest
  | c :: rest => .plain c :: tokens rest

structure Mode where
  ignoreCase : Bool := false
  multiline : Bool := false
  dotAll : Bool := false
  verbose : Bool := false
  ascii : Bool := false
  deriving DecidableEq, Repr

def Mode.folding (m : Mode) : Folding :=
  if m.ignoreCase then (if m.ascii then .ascii else .full) else .none

namespace Mode

def turn (on : Bool) (m : Mode) (letter : Char) : Mode :=
  match letter with
  | 'i' => { m with ignoreCase := on }
  | 'm' => { m with multiline := on }
  | 's' => { m with dotAll := on }
  | 'x' => { m with verbose := on }
  | 'a' => { m with ascii := on }
  | 'u' => { m with ascii := !on }
  | _ => m

end Mode

def modeLetters : List Char := ['i', 'L', 'm', 's', 'x', 'a', 't', 'u']

structure State where
  input : List Token
  mode : Mode := {}
  letters : List Char := []
  /-- Widths of the captures opened so far, nothing for those still open. -/
  captures : List (Option Width) := []
  names : List (String × Nat) := []
  /-- Inside a look at what lies behind: how many captures there were before it. -/
  behindLimit : Option Nat := none
  asked : List Nat := []
  /-- A look behind has no one width. -/
  unbounded : Bool := false

abbrev Reader := StateT State (Except PatternFault)

def malformed {α : Type} : Reader α := throw .malformed

def peek : Reader (Option Token) := do
  match (← get).input with
  | .dangling :: _ => malformed
  | t :: _ => return some t
  | [] => return none

def advance : Reader Unit := modify fun s => { s with input := s.input.drop 1 }

def next : Reader Token := do
  match ← peek with
  | some t => advance; return t
  | none => malformed

def accept (c : Char) : Reader Bool := do
  if (← peek) == some (.plain c) then advance; let _ ← peek; return true
  else return false

def expect (c : Char) : Reader Unit := do if !(← accept c) then malformed

def takeWhile (p : Char → Bool) : (limit : Nat) → Reader (List Char)
  | 0 => return []
  | limit + 1 => do
    match ← peek with
    | some (.plain c) => if p c then advance; return c :: (← takeWhile p limit) else return []
    | _ => return []

def takeUntil (close : Char) : Reader String := do
  let s ← get
  let name := s.input.takeWhile (· != .plain close)
  match s.input.drop name.length with
  | [] => malformed
  | _ :: rest =>
    set { s with input := rest }
    let _ ← peek
    if name.isEmpty then malformed
    else
      return String.ofList (name.flatMap fun
        | .plain c => [c]
        | .escaped c => ['\\', c]
        | .dangling => ['\\'])

def isName (s : String) : Bool :=
  match s.toList with
  | [] => false
  | c :: rest => Text.isWord c && !Text.isDecimalDigit c && rest.all Text.isWord

def isOctal (c : Char) : Bool := '0' ≤ c && c ≤ '7'

def isHexadecimal (c : Char) : Bool :=
  c.isDigit || ('a' ≤ c && c ≤ 'f') || ('A' ≤ c && c ≤ 'F')

def digitOf (c : Char) : Nat :=
  if c.isDigit then c.toNat - '0'.toNat else c.toLower.toNat - 'a'.toNat + 10

def valueOf (base : Nat) (cs : List Char) : Nat := cs.foldl (fun n c => n * base + digitOf c) 0

def hexadecimal (digits : Nat) : Reader Nat := do
  let cs ← takeWhile isHexadecimal digits
  if cs.length == digits then return valueOf 16 cs else malformed

def letterCode? : Char → Option Nat
  | 'a' => some 7
  | 'b' => some 8
  | 'f' => some 12
  | 'n' => some 10
  | 'r' => some 13
  | 't' => some 9
  | 'v' => some 11
  | '\\' => some 92
  | _ => none

def kind? (ascii : Bool) : Char → Option CharTest
  | 'd' => some (.kind .digit false ascii)
  | 'D' => some (.kind .digit true ascii)
  | 's' => some (.kind .blank false ascii)
  | 'S' => some (.kind .blank true ascii)
  | 'w' => some (.kind .word false ascii)
  | 'W' => some (.kind .word true ascii)
  | _ => none

def greatestCode : Nat := 0x10FFFF

def escapedCode (c : Char) : Reader Nat := do
  if c == 'x' then hexadecimal 2
  else if c == 'u' then hexadecimal 4
  else if c == 'U' then
    let n ← hexadecimal 8
    if n ≤ greatestCode then return n else malformed
  else if c.isAlpha || c.isDigit then malformed
  else return c.toNat

def octal (first : Char) : Reader Nat := do
  let n := valueOf 8 (first :: (← takeWhile isOctal 2))
  if n ≤ 0xFF then return n else malformed

def setMember (ascii : Bool) : Token → Reader CharTest
  | .plain c => return .code c.toNat
  | .dangling => malformed
  | .escaped c => do
    match letterCode? c, kind? ascii c with
    | some n, _ => return .code n
    | none, some k => return k
    | none, none => if isOctal c then return .code (← octal c) else return .code (← escapedCode c)

/-- The members of a set up to the closing bracket, which is a member where none precedes it. -/
def setMembers (ascii : Bool) : (fuel : Nat) → List CharTest → Reader (List CharTest)
  | 0, _ => malformed
  | fuel + 1, found => do
    let t ← next
    if t == .plain ']' && !found.isEmpty then return found.reverse
    else
      let low ← setMember ascii t
      if ← accept '-' then
        let u ← next
        if u == .plain ']' then return (.code '-'.toNat :: low :: found).reverse
        else
          match low, ← setMember ascii u with
          | .code a, .code b => if a ≤ b then setMembers ascii fuel (.range a b :: found) else malformed
          | _, _ => malformed
      else setMembers ascii fuel (low :: found)

def charSet (m : Mode) : Reader Node := do
  let negated ← accept '^'
  let tests ← setMembers m.ascii ((← get).input.length + 1) []
  return .char ⟨tests, negated, m.folding⟩

def single (m : Mode) (code : Nat) : Node := .char ⟨[.code code], false, m.folding⟩

/-- Inside a look behind only captures completed before it may be referred to. -/
def checkBehind (index : Nat) : Reader Unit := do
  let s ← get
  match s.behindLimit with
  | none => return
  | some limit =>
    if ((s.captures[index - 1]?).join).isNone || limit ≤ index then malformed

def reference (m : Mode) (index : Nat) : Reader Node := do
  if ((← get).captures[index - 1]?).join.isNone then malformed
  checkBehind index
  return .again index m.folding

/-- A number behind a backslash: three octal digits are a code, any other number is a capture's. -/
def numbered (m : Mode) (first : Char) : Reader Node := do
  match ← takeWhile (·.isDigit) 1 with
  | [second] =>
    if isOctal first && isOctal second then
      match ← takeWhile isOctal 1 with
      | [third] =>
        let n := valueOf 8 [first, second, third]
        if n ≤ 0xFF then return single m n else malformed
      | _ => reference m (valueOf 10 [first, second])
    else reference m (valueOf 10 [first, second])
  | _ => reference m (valueOf 10 [first])

inductive ItemKind where
  | place
  | repetition
  | other
  deriving DecidableEq, Repr

def escape (m : Mode) (c : Char) : Reader (ItemKind × Node) := do
  match c with
  | 'A' => return (.place, .anchor .textStart)
  | 'Z' => return (.place, .anchor .textEnd)
  | 'b' => return (.place, .anchor (.wordBoundary m.ascii))
  | 'B' => return (.place, .anchor (.noWordBoundary m.ascii))
  | _ =>
    match kind? m.ascii c, letterCode? c with
    | some k, _ => return (.other, .char ⟨[k], false, m.folding⟩)
    | none, some n => return (.other, single m n)
    | none, none =>
      if c == '0' then return (.other, single m (valueOf 8 (← takeWhile isOctal 2)))
      else if c.isDigit then return (.other, ← numbered m c)
      else return (.other, single m (← escapedCode c))

def countBound : Nat := Nat.pow 2 32 - 1

def bounds? : Reader (Option (Nat × Option Nat)) := do
  let start ← get
  if (← peek) == some (.plain '\x7d') then return none
  let length := start.input.length
  let low ← takeWhile (·.isDigit) length
  let comma ← accept ','
  let high ← if comma then takeWhile (·.isDigit) length else pure low
  if ← accept '\x7d' then
    let least := valueOf 10 low
    let most := valueOf 10 high
    if countBound ≤ least || countBound ≤ most then throw .countTooLarge
    if high.isEmpty then return some (least, none)
    if most < least then malformed
    return some (least, some most)
  else
    set start
    return none

def repetition? (c : Char) : Reader (Option (Nat × Option Nat)) := do
  match c with
  | '?' => return some (0, some 1)
  | '*' => return some (0, none)
  | '+' => return some (1, none)
  | '\x7b' => bounds?
  | _ => return none

def eagerness : Reader Eagerness := do
  if ← accept '?' then return .lazy
  else if ← accept '+' then return .possessive
  else return .greedy

def join : List Node → Node
  | [] => .empty
  | [n] => n
  | n :: rest => .seq n (join rest)

def choose : List Node → Node
  | [] => .empty
  | [n] => n
  | n :: rest => .alt n (choose rest)

inductive ModeMark where
  | whole (letters : List Char)
  | group (on off : List Char)

def letterRun : (fuel : Nat) → Char → List Char → Reader (List Char × Char)
  | 0, _, _ => malformed
  | fuel + 1, c, found => do
    match ← next with
    | .plain d =>
      if modeLetters.contains d then letterRun fuel d (c :: found) else return ((c :: found).reverse, d)
    | _ => malformed

def areCompatible (letters : List Char) : Bool :=
  !letters.contains 'L' && !(letters.contains 'a' && letters.contains 'u')

def offLetters (fuel : Nat) (on : List Char) : Reader ModeMark := do
  match ← next with
  | .plain c =>
    if !modeLetters.contains c then malformed
    let (off, close) ← letterRun fuel c []
    if close != ':' || off.any (['a', 'L', 'u', 't'].contains ·) || on.any (off.contains ·) then malformed
    return .group on off
  | _ => malformed

def modeMark (fuel : Nat) (first : Char) : Reader ModeMark := do
  if first == '-' then offLetters fuel []
  else
    let (on, close) ← letterRun fuel first []
    if !areCompatible on then malformed
    if close == ')' then return .whole on
    if on.contains 't' then malformed
    if close == ':' then return .group on []
    if close == '-' then offLetters fuel on else malformed

def Mode.withLetters (m : Mode) (on off : List Char) : Mode :=
  off.foldl (Mode.turn false) (on.foldl (Mode.turn true) m)

def openCapture (name : Option String) : Reader Nat := do
  let s ← get
  let index := s.captures.length + 1
  match name with
  | none => set { s with captures := s.captures ++ [none] }
  | some n =>
    if s.names.any (·.1 == n) then malformed
    set { s with captures := s.captures ++ [none], names := (n, index) :: s.names }
  return index

def captureWidth (captures : List (Option Width)) (index : Nat) : Width :=
  ((captures[index - 1]?).join).getD .zero

def widthOf (n : Node) : Reader Width := do
  let captures := (← get).captures
  return n.width (captureWidth captures)

def closeCapture (index : Nat) (body : Node) : Reader Unit := do
  let w ← widthOf body
  modify fun s => { s with captures := s.captures.set (index - 1) (some w) }

def skipComment : Reader Unit := do
  let s ← get
  match s.input.dropWhile (· != .plain ')') with
  | [] => malformed
  | _ :: rest => set { s with input := rest }

def skipLine : Reader Unit :=
  modify fun s => { s with input := (s.input.dropWhile (· != .plain '\n')).drop 1 }

def isVerboseBlank (c : Char) : Bool := [' ', '\t', '\n', '\r', '\x0b', '\x0c'].contains c

def conditionIndex : Reader Nat := do
  let name ← takeUntil ')'
  let index ←
    if isName name then
      match (← get).names.find? (·.1 == name) with
      | some (_, i) => pure i
      | none => malformed
    else
      match Decimal.readLooseInt? name with
      | some (.ofNat (i + 1)) =>
        modify fun s => { s with asked := (i + 1) :: s.asked }
        pure (i + 1)
      | _ => malformed
  checkBehind index
  return index

/-- The widest look behind. -/
def greatestWidth : Nat := Nat.pow 2 32 - 1

mutual

def alternatives : (fuel : Nat) → (whole : Bool) → Mode → Reader Node
  | 0, _, _ => malformed
  | fuel + 1, whole, m => do
    let first ← items fuel whole m []
    let m ← if whole then pure (← get).mode else pure m
    let rest ← moreAlternatives fuel m
    return choose (first :: rest)

def moreAlternatives : (fuel : Nat) → Mode → Reader (List Node)
  | 0, _ => malformed
  | fuel + 1, m => do
    if ← accept '|' then
      let n ← items fuel false m []
      return n :: (← moreAlternatives fuel m)
    else return []

/-- Items up to a bar, a closing parenthesis or the end; those read so far come latest first. -/
def items : (fuel : Nat) → (start : Bool) → Mode → List (ItemKind × Node) → Reader Node
  | 0, _, _, _ => malformed
  | fuel + 1, start, m, found => do
    match ← peek with
    | none | some (.plain '|') | some (.plain ')') => return join (found.map (·.2)).reverse
    | some .dangling => malformed
    | some (.escaped c) =>
      advance
      let item ← escape m c
      items fuel start m (item :: found)
    | some (.plain c) =>
      advance
      if m.verbose && isVerboseBlank c then items fuel start m found
      else if m.verbose && c == '#' then
        skipLine
        items fuel start m found
      else
        match ← repetition? c with
        | some (least, most) =>
          let _ ← peek
          match found with
          | [] => malformed
          | (kind, body) :: others =>
            if kind != .other then malformed
            let e ← eagerness
            items fuel start m ((.repetition, .repeated least most e body) :: others)
        | none =>
          match c with
          | '[' =>
            let n ← charSet m
            items fuel start m ((.other, n) :: found)
          | '.' =>
            let n := Node.char (if m.dotAll then ⟨[], true, .none⟩ else ⟨[.code 10], true, .none⟩)
            items fuel start m ((.other, n) :: found)
          | '^' =>
            let a := if m.multiline then Anchor.lineStart else .textStart
            items fuel start m ((.place, .anchor a) :: found)
          | '$' =>
            let a := if m.multiline then Anchor.lineEnd else .lastLineEnd
            items fuel start m ((.place, .anchor a) :: found)
          | '(' =>
            if ← accept '?' then extension fuel start m found
            else
              let n ← capture fuel m none
              items fuel start m ((.other, n) :: found)
          | _ => items fuel start m ((.other, single m c.toNat) :: found)

def capture : (fuel : Nat) → Mode → Option String → Reader Node
  | 0, _, _ => malformed
  | fuel + 1, m, name => do
    let index ← openCapture name
    let body ← alternatives fuel false m
    expect ')'
    closeCapture index body
    return .capture index body

def extension : (fuel : Nat) → (start : Bool) → Mode → List (ItemKind × Node) → Reader Node
  | 0, _, _, _ => malformed
  | fuel + 1, start, m, found => do
    match ← next with
    | .plain 'P' =>
      match ← next with
      | .plain '<' =>
        let name ← takeUntil '>'
        if !isName name then malformed
        let n ← capture fuel m (some name)
        items fuel start m ((.other, n) :: found)
      | .plain '=' =>
        let name ← takeUntil ')'
        match (← get).names.find? (·.1 == name) with
        | some (_, index) =>
          let n ← reference m index
          items fuel start m ((.other, n) :: found)
        | none => malformed
      | _ => malformed
    | .plain ':' =>
      let n ← group fuel m
      items fuel start m ((.other, n) :: found)
    | .plain '>' =>
      let n ← group fuel m
      items fuel start m ((.other, .atomic n) :: found)
    | .plain '#' =>
      skipComment
      items fuel start m found
    | .plain '=' =>
      let n ← group fuel m
      items fuel start m ((.other, .ahead false n) :: found)
    | .plain '!' =>
      let n ← group fuel m
      items fuel start m ((.other, .ahead true n) :: found)
    | .plain '<' =>
      let negated ← match ← next with
        | .plain '=' => pure false
        | .plain '!' => pure true
        | _ => malformed
      let n ← lookBehind fuel m negated
      items fuel start m ((.other, n) :: found)
    | .plain '(' =>
      let index ← conditionIndex
      let yes ← items fuel false m []
      let no ← if ← accept '|' then items fuel false m [] else pure .empty
      expect ')'
      items fuel start m ((.other, .ifCaptured index yes no) :: found)
    | .plain c =>
      if !(c == '-' || modeLetters.contains c) then malformed
      match ← modeMark ((← get).input.length) c with
      | .whole letters =>
        if !start || !found.isEmpty then malformed
        let m := m.withLetters letters []
        modify fun s => { s with mode := m, letters := s.letters ++ letters }
        items fuel start m found
      | .group on off =>
        let n ← group fuel (m.withLetters on off)
        items fuel start m ((.other, n) :: found)
    | _ => malformed

def group : (fuel : Nat) → Mode → Reader Node
  | 0, _ => malformed
  | fuel + 1, m => do
    let n ← alternatives fuel false m
    expect ')'
    return n

def lookBehind : (fuel : Nat) → Mode → Bool → Reader Node
  | 0, _, _ => malformed
  | fuel + 1, m, negated => do
    let limit := (← get).behindLimit
    modify fun s => { s with behindLimit := some (limit.getD (s.captures.length + 1)) }
    let n ← alternatives fuel false m
    modify fun s => { s with behindLimit := limit }
    expect ')'
    match (← widthOf n).fixed? with
    | some w =>
      if greatestWidth < w then modify fun s => { s with unbounded := true }
      return .behind negated w n
    | none =>
      modify fun s => { s with unbounded := true }
      return .empty

end

def Node.repeats : Node → Bool
  | .repeated _ _ _ _ => true
  | .seq a b | .alt a b | .ifCaptured _ a b => a.repeats || b.repeats
  | .capture _ b | .atomic b | .ahead _ b | .behind _ _ b => b.repeats
  | _ => false

/-- A whole pattern. Every call of the reader is paid for by a token or by the nesting it opens, so
the budget does not run out. -/
def read (pattern : String) : Except PatternFault Node := do
  let input := tokens pattern.toList
  let (node, s) ← (alternatives (4 * input.length + 8) true {}).run { input }
  if s.letters.contains 'a' && s.letters.contains 'u' then throw .conflictingModes
  if !s.input.isEmpty then throw .malformed
  if s.asked.any (s.captures.length < ·) then throw .malformed
  if s.unbounded || s.letters.contains 't' && node.repeats then throw .malformed
  return node

end VaultSchema.Pattern
