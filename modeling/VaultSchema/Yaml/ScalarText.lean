import VaultSchema.Yaml.Cursor
import VaultSchema.Yaml.Dialect
import VaultSchema.Json.Reading

/-! The texts of scalars in their three notations: in quotes, as an indented block, and plain. Each
reader starts at the first character of the notation and ends behind its last; nothing is returned
where the notation is broken. -/

set_option autoImplicit false

namespace VaultSchema.Yaml

/-- Line ends in a row, with the blanks that `skip` passes over after each. -/
def takeBreaks (skip : Cursor → Cursor) : Nat → Cursor → List Char × Cursor
  | 0, c => ([], c)
  | fuel + 1, c =>
    match c.lineBreak? with
    | some (ch, c) =>
      let (more, c) := takeBreaks skip fuel (skip c)
      (ch :: more, c)
    | none => ([], c)

/-- What a line end and the empty lines behind it come to inside a text: a single line feed is a
blank, and of several one is dropped. -/
def foldBreaks (first : Char) (others : List Char) : List Char :=
  if first == '\n' then (if others.isEmpty then [' '] else others) else first :: others

/- In quotes. -/

def namedEscape? (c : Char) : Option Char :=
  match c with
  | '0' => some nul
  | 'a' => some (Char.ofNat 7)
  | 'b' => some (Char.ofNat 8)
  | 't' => some '\t'
  | '\t' => some '\t'
  | 'n' => some '\n'
  | 'v' => some (Char.ofNat 11)
  | 'f' => some (Char.ofNat 12)
  | 'r' => some '\r'
  | 'e' => some (Char.ofNat 27)
  | ' ' => some ' '
  | '"' => some '"'
  | '\\' => some '\\'
  | '/' => some '/'
  | 'N' => some (Char.ofNat 0x85)
  | '_' => some (Char.ofNat 0xa0)
  | 'L' => some (Char.ofNat 0x2028)
  | 'P' => some (Char.ofNat 0x2029)
  | _ => none

def escapeWidth? (c : Char) : Option Nat :=
  match c with
  | 'x' => some 2
  | 'u' => some 4
  | 'U' => some 8
  | _ => none

def isCodePoint (n : Nat) : Bool := n < 0xd800 || (0xe000 ≤ n && n < 0x110000)

/-- The empty lines of a quoted text; a document mark may not stand at their beginning. -/
def quotedBreaks? : Nat → Cursor → Option (List Char × Cursor)
  | 0, _ => none
  | fuel + 1, c =>
    if c.atDocumentMark then none
    else
      let c := c.dropWhile isTabOrBlank
      match c.lineBreak? with
      | some (ch, c) => do
        let (more, c) ← quotedBreaks? fuel c
        some (ch :: more, c)
      | none => some ([], c)

def quotedRest? (quote : Char) : Nat → Cursor → Option (List Char × Cursor)
  | 0, _ => none
  | fuel + 1, c =>
    let ch := c.peek
    let go (done : List Char) (c : Cursor) : Option (List Char × Cursor) := do
      let (more, c) ← quotedRest? quote fuel c
      some (done ++ more, c)
    if ch == nul then none
    else if ch == quote then
      if quote == '\'' && c.peekAt 1 == '\'' then go ['\''] (c.advanceBy 2)
      else some ([], c.advance)
    else if ch == '\\' && quote == '"' then
      let next := c.peekAt 1
      match namedEscape? next, escapeWidth? next with
      | some e, _ => go [e] (c.advanceBy 2)
      | none, some width =>
        let digits := (c.rest.drop 2).take width
        match Json.hexNumber? digits with
        | some n =>
          if digits.length == width && isCodePoint n then
            go [Char.ofNat n] (c.advanceBy (2 + width))
          else none
        | none => none
      | none, none =>
        match c.advance.lineBreak? with
        | some (_, c) => do
          let (breaks, c) ← quotedBreaks? (c.rest.length + 1) c
          go breaks c
        | none => none
    else if isTabOrBlank ch || isBreak ch then
      let (blanks, c) := c.takeWhile isTabOrBlank
      match c.lineBreak? with
      | some (first, c) => do
        let (others, c) ← quotedBreaks? (c.rest.length + 1) c
        go (foldBreaks first others) c
      | none => if c.peek == nul then none else go blanks c
    else
      let (run, c) := c.takeWhile fun x =>
        !(isSpaceOrEnd x || x == '\'' || x == '"' || x == '\\')
      if run.isEmpty then go [ch] c.advance else go run c

def quoted? (c : Cursor) : Option (String × Cursor) :=
  (quotedRest? c.peek (c.rest.length + 2) c.advance).map fun (cs, c) => (String.ofList cs, c)

/- Indented blocks. -/

inductive Chomping where
  | strip
  | clip
  | keep
  deriving DecidableEq

def chomping? (c : Char) : Option Chomping :=
  if c == '+' then some .keep else if c == '-' then some .strip else none

def increment? (c : Char) : Option Nat :=
  if '0' ≤ c && c ≤ '9' then some (c.toNat - '0'.toNat) else none

/-- The marks behind the sign of a block, in either order: what happens to the last line ends, and
how far the text is indented. -/
def blockMarks? (c : Cursor) : Option (Chomping × Option Nat × Cursor) :=
  let (how, width, c) :=
    match chomping? c.peek with
    | some how =>
      match increment? (c.peekAt 1) with
      | some n => (how, some n, c.advanceBy 2)
      | none => (how, none, c.advance)
    | none =>
      match increment? c.peek with
      | some n =>
        match chomping? (c.peekAt 1) with
        | some how => (how, some n, c.advanceBy 2)
        | none => (.clip, some n, c.advance)
      | none => (.clip, none, c)
  if width == some 0 then none else some (how, width, c)

def restOfLine? (dialect : Dialect) (c : Cursor) : Option Cursor :=
  let c := c.dropWhile dialect.isBlank
  let c := if c.peek == '#' then c.dropWhile (!isBreakOrEnd ·) else c
  if isBreakOrEnd c.peek then some ((c.lineBreak?.map Prod.snd).getD c) else none

def skipTo (column : Nat) (c : Cursor) : Cursor :=
  c.advanceBy (min (column - c.column) (c.rest.takeWhile (· == ' ')).length)

/-- The empty lines in front of a block whose indentation is not given, and the widest blanks in
them or before the text. -/
def findIndent : Nat → Nat → Cursor → List Char × Nat × Cursor
  | 0, widest, c => ([], widest, c)
  | fuel + 1, widest, c =>
    let c := c.dropWhile (· == ' ')
    let widest := max widest c.column
    match c.lineBreak? with
    | some (ch, c) =>
      let (more, widest, c) := findIndent fuel widest c
      (ch :: more, widest, c)
    | none => ([], widest, c)

def blockLines? (dialect : Dialect) (indent : Nat) :
    Nat → List Char → Cursor → Option (List (List Char × List Char × Char) × List Char × Cursor)
  | 0, _, _ => none
  | fuel + 1, breaks, c =>
    if dialect.tabsSeparate && c.column < indent && c.peek == '\t' then none
    else if c.column == indent && c.peek != nul then
      let (line, c) := c.takeWhile (!isBreakOrEnd ·)
      match c.lineBreak? with
      | some (ch, c) => do
        let (others, c) := takeBreaks (skipTo indent) (c.rest.length + 1) (skipTo indent c)
        let (lines, tail, c) ← blockLines? dialect indent fuel others c
        some ((breaks, line, ch) :: lines, tail, c)
      | none => some ([(breaks, line, nul)], [], c)
    else some ([], breaks, c)

def startsBlank (line : List Char) : Bool := line.head?.any isTabOrBlank

/-- Lines joined: kept apart in a literal block, while in a folded one a single line feed between
lines that do not begin with a blank is a blank and of several one is dropped. -/
def joinLines (folded : Bool) : List (List Char × List Char × Char) → List Char
  | [] => []
  | [(breaks, line, _)] => breaks ++ line
  | (breaks, line, stop) :: (nextBreaks, next, nextStop) :: rest =>
    let joint :=
      if folded && stop == '\n' && !startsBlank line && !startsBlank next then
        if nextBreaks.isEmpty then [' '] else []
      else [stop]
    breaks ++ line ++ joint ++ joinLines folded ((nextBreaks, next, nextStop) :: rest)

/-- A block; `parent` is the indentation it stands in, `-1` outside all. -/
def block? (dialect : Dialect) (parent : Int) (c : Cursor) : Option (String × Cursor) := do
  let folded := c.peek == '>'
  let (how, width, c) ← blockMarks? c.advance
  let c ← if dialect.tabsSeparate || c.peek == ' ' || isBreakOrEnd c.peek then restOfLine? dialect c
    else none
  let least := (max 1 (parent + 1)).toNat
  let (breaks, indent, c) :=
    match width with
    | some n =>
      let indent := least + n - 1
      let (breaks, c) := takeBreaks (skipTo indent) (c.rest.length + 1) (skipTo indent c)
      (breaks, indent, c)
    | none =>
      let (breaks, widest, c) := findIndent (c.rest.length + 1) 0 c
      (breaks, max least widest, c)
  if dialect.tabsSeparate && width.isNone && c.peek == '\t' then none
  else finish folded how indent breaks c
where
  finish (folded : Bool) (how : Chomping) (indent : Nat) (breaks : List Char) (c : Cursor) :
      Option (String × Cursor) := do
    let (lines, tail, c) ← blockLines? dialect indent (c.rest.length + 2) breaks c
    let last := match lines.getLast? with
      | some (_, _, stop) => if stop == nul then [] else [stop]
      | none => []
    let ending :=
      match how with
      | .strip => []
      | .clip => last
      | .keep => last ++ tail
    some (String.ofList (joinLines folded lines ++ ending), c)

/- Plain. -/

def plainWord? (dialect : Dialect) (inFlow : Bool) : List Char → Option (List Char)
  | [] => some []
  | ch :: rest =>
    let next := rest.headD nul
    if isSpaceOrEnd ch then some []
    else if inFlow && dialect.colonNeedsBlank && ch == ':' && ",?[]\x7b\x7d".toList.contains next then
      none
    else if ch == ':' && (isSpaceOrEnd next
        || (inFlow && !dialect.colonNeedsBlank && ",[]\x7b\x7d".toList.contains next)) then some []
    else if inFlow && (",[]\x7b\x7d".toList.contains ch || (ch == '?' && !dialect.questionInPlain)) then
      some []
    else (plainWord? dialect inFlow rest).map (ch :: ·)

/-- The blank space behind a word: what it comes to inside the text, whether it holds a line end,
and the place behind it. Nothing is returned where tabs stand in place of indentation. -/
def plainSpace? (dialect : Dialect) (indent : Nat) (c : Cursor) :
    Option (List Char × Bool × Cursor) :=
  let (blanks, c) := c.takeWhile dialect.isBlank
  match c.lineBreak? with
  | none => some (blanks, false, c)
  | some (first, c) => do
    let (others, c) ← lines (c.rest.length + 1) c
    some (foldBreaks first others, true, c)
where
  lines : Nat → Cursor → Option (List Char × Cursor)
    | 0, _ => none
    | fuel + 1, c =>
      if c.atDocumentMark then some ([], c)
      else
        let blanks := c.rest.takeWhile dialect.isBlank
        if (blanks.take (indent - c.column)).contains '\t' then none
        else
          let c := c.advanceBy blanks.length
          match c.lineBreak? with
          | some (ch, c) => do
            let (more, c) ← lines fuel c
            some (ch :: more, c)
          | none => some ([], c)

/-- A plain text: words with the space between them, over several lines where these are indented.
Tells also whether a line end lies behind it. -/
def plainRest? (dialect : Dialect) (inFlow : Bool) (indent : Nat) :
    Nat → List Char → Bool → Cursor → Option (List Char × Bool × Cursor)
  | 0, _, _, _ => none
  | fuel + 1, space, broken, c =>
    if c.peek == '#' then some ([], broken, c)
    else do
      let word ← plainWord? dialect inFlow c.rest
      if word.isEmpty then some ([], broken, c)
      else
        let c := c.advanceBy word.length
        let (next, newLine, c) ← plainSpace? dialect indent c
        let stops := next.isEmpty || (newLine && c.column == 0 && c.atDocumentMark)
          || (!inFlow && c.column < indent)
        if stops then some (space ++ word, newLine, c)
        else do
          let (more, broken, c) ← plainRest? dialect inFlow indent fuel next newLine c
          some (space ++ word ++ more, broken, c)

def plain? (dialect : Dialect) (inFlow : Bool) (parent : Int) (c : Cursor) :
    Option (String × Bool × Cursor) :=
  (plainRest? dialect inFlow (parent + 1).toNat (c.rest.length + 2) [] false c).map
    fun (cs, broken, c) => (String.ofList cs, broken, c)

end VaultSchema.Yaml
