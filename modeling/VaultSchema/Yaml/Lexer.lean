import VaultSchema.Yaml.Token
import VaultSchema.Yaml.ScalarText

/-! Division of a YAML text into tokens. A key is known for one only by the colon behind it, so
places where a key may have begun are kept, one for each depth of brackets, and the key's token is
put in at its place when the colon comes. Indentation opens and closes blocks. -/

set_option autoImplicit false

namespace VaultSchema.Yaml

/-- A place where a key may have begun. `token` counts the tokens before it. -/
structure PossibleKey where
  token : Nat
  required : Bool
  index : Nat
  line : Nat
  column : Nat

structure Lexer where
  cursor : Cursor
  tokens : Array Token
  depth : Nat
  indent : Int
  indents : List Int
  keyAllowed : Bool
  keys : List (Nat × PossibleKey)

namespace Lexer

def start (cs : List Char) : Lexer := ⟨.start cs, #[], 0, -1, [], true, []⟩

def keyReach : Nat := 1024

def push (s : Lexer) (t : Token) : Lexer := { s with tokens := s.tokens.push t }

def column (s : Lexer) : Int := s.cursor.column

def inFlow (s : Lexer) : Bool := 0 < s.depth

/-- Keys are given up when their line has ended or they have grown too long, which is an error
where only a key may stand. -/
def dropStale? (s : Lexer) : Option Lexer :=
  let stale (k : PossibleKey) : Bool :=
    k.line != s.cursor.line || keyReach < s.cursor.index - k.index
  if s.keys.any fun k => stale k.2 && k.2.required then none
  else some { s with keys := s.keys.filter fun k => !stale k.2 }

def dropKey? (s : Lexer) : Option Lexer :=
  match s.keys.find? (·.1 == s.depth) with
  | some (_, k) =>
    if k.required then none else some { s with keys := s.keys.filter (·.1 != s.depth) }
  | none => some s

def saveKey? (s : Lexer) : Option Lexer :=
  if s.keyAllowed then do
    let s ← s.dropKey?
    let k : PossibleKey := ⟨s.tokens.size, !s.inFlow && s.indent == s.column,
      s.cursor.index, s.cursor.line, s.cursor.column⟩
    some { s with keys := (s.depth, k) :: s.keys }
  else some s

def closeTo (column : Int) : Nat → Lexer → Lexer
  | 0, s => s
  | fuel + 1, s =>
    if !s.inFlow && column < s.indent then
      closeTo column fuel
        { s.push .blockEnd with indent := s.indents.headD (-1), indents := s.indents.drop 1 }
    else s

def unwind (s : Lexer) (column : Int) : Lexer := closeTo column (s.indents.length + 1) s

def openBlock (s : Lexer) (column : Int) (place : Nat) (t : Token) : Lexer :=
  if s.indent < column then
    { s with
      indents := s.indent :: s.indents
      indent := column
      tokens := s.tokens.insertIdxIfInBounds place t }
  else s

def advance (s : Lexer) (n : Nat) : Lexer := { s with cursor := s.cursor.advanceBy n }

def skipMark (dialect : Dialect) (c : Cursor) : Cursor :=
  if c.peek != byteOrderMark then c
  else if dialect.marksBeginLines then
    if c.column == 0 then { c.advance with column := 1 } else c
  else if c.index == 0 then c.advance
  else c

def skipSpace (dialect : Dialect) : Nat → Lexer → Lexer
  | 0, s => s
  | fuel + 1, s =>
    let c := skipMark dialect s.cursor
    let tabs := dialect.tabsSeparate && (s.inFlow || !s.keyAllowed)
    let c := c.dropWhile fun x => x == ' ' || (tabs && x == '\t')
    let c := if c.peek == '#' then c.dropWhile (!isBreakOrEnd ·) else c
    match c.lineBreak? with
    | some (_, c) =>
      skipSpace dialect fuel { s with cursor := c, keyAllowed := s.keyAllowed || !s.inFlow }
    | none => { s with cursor := c }

/- Directives, names and tags. -/

def takeDigits? (c : Cursor) : Option (Nat × Cursor) :=
  let (digits, c) := c.takeWhile fun x => '0' ≤ x && x ≤ '9'
  if digits.isEmpty then none else some (Decimal.ofDigits digits, c)

def isTagChar (dialect : Dialect) (whole : Bool) (c : Char) : Bool :=
  isNameChar c || ";/?:@&=+$_.!~*'()%".toList.contains c
    || (",[]".toList.contains c && (whole || !dialect.tagEndsAtBracket))

def percentBytes? : List Char → Option (List UInt8)
  | [] => some []
  | '%' :: a :: b :: rest => do
    let n ← Json.hexNumber? [a, b]
    let more ← percentBytes? rest
    some (UInt8.ofNat n :: more)
  | c :: rest => if c == '%' then none else do
    let more ← percentBytes? rest
    some (c.toNat.toUInt8 :: more)

def takeTagText? (dialect : Dialect) (whole : Bool) (c : Cursor) : Option (String × Cursor) := do
  let (cs, c) := c.takeWhile (isTagChar dialect whole)
  let bytes ← percentBytes? cs
  let text ← String.fromUTF8? (ByteArray.mk bytes.toArray)
  some (text, c)

def takeHandle? (c : Cursor) : Option (String × Cursor) :=
  if c.peek != '!' then none
  else
    let (name, after) := c.advance.takeWhile isNameChar
    if name.isEmpty && after.peek != '!' then some ("!", after)
    else if after.peek == '!' then some (String.ofList ('!' :: name ++ ['!']), after.advance)
    else none

def directive? (dialect : Dialect) (c : Cursor) : Option (Token × Cursor) := do
  let (name, c) := c.advance.takeWhile isNameChar
  if name.isEmpty || !(c.peek == ' ' || isBreakOrEnd c.peek) then none
  let (token, c) ←
    match String.ofList name with
    | "YAML" => do
      let (major, c) ← takeDigits? (c.dropWhile (· == ' '))
      if c.peek != '.' then none
      let (minor, c) ← takeDigits? c.advance
      some (Token.version major minor, c)
    | "TAG" => do
      let (handle, c) ← takeHandle? (c.dropWhile (· == ' '))
      if c.peek != ' ' then none
      let (lead, c) ← takeTagText? dialect true (c.dropWhile (· == ' '))
      if lead.isEmpty then none
      some (Token.tagDirective handle lead, c)
    | _ => some (Token.otherDirective, c.dropWhile (!isBreakOrEnd ·))
  let c ← restOfLine? dialect c
  some (token, c)

def name? (c : Cursor) : Option (String × Cursor) :=
  let (cs, c) := c.advance.takeWhile isNameChar
  if cs.isEmpty || !(isSpaceOrEnd c.peek || "?:,]\x7d%@\x60".toList.contains c.peek) then none
  else some (String.ofList cs, c)

def tag? (dialect : Dialect) (inFlow : Bool) (c : Cursor) : Option (Token × Cursor) := do
  let (token, c) ←
    if c.peekAt 1 == '<' then do
      let (text, c) ← takeTagText? dialect true (c.advanceBy 2)
      if text.isEmpty || c.peek != '>' then none
      some (Token.tag none text, c.advance)
    else
      let name := ((c.rest.drop 1).takeWhile isNameChar).length
      if c.peekAt (name + 1) == '!' then do
        let (handle, c) ← takeHandle? c
        let (suffix, c) ← takeTagText? dialect false c
        if suffix.isEmpty then none
        some (Token.tag (some handle) suffix, c)
      else do
        let (suffix, c) ← takeTagText? dialect false c.advance
        some (if suffix.isEmpty then Token.tag none "!" else Token.tag (some "!") suffix, c)
  if isSpaceOrEnd c.peek && (dialect.tabsSeparate || c.peek != '\t') then some (token, c)
  else if dialect.tagEndsAtBracket && inFlow && c.peek == ',' then some (token, c)
  else none

/- One token. -/

def documentMark? (s : Lexer) (t : Token) : Option Lexer := do
  let s ← (s.unwind (-1)).dropKey?
  some ({ s with keyAllowed := false }.advance 3 |>.push t)

def openFlow? (s : Lexer) (t : Token) : Option Lexer := do
  let s ← s.saveKey?
  some ({ s with depth := s.depth + 1, keyAllowed := true }.advance 1 |>.push t)

def closeFlow? (s : Lexer) (t : Token) : Option Lexer := do
  let s ← s.dropKey?
  some ({ s with depth := s.depth - 1, keyAllowed := false }.advance 1 |>.push t)

def flowEntry? (s : Lexer) : Option Lexer := do
  let s ← s.dropKey?
  some ({ s with keyAllowed := true }.advance 1 |>.push .flowEntry)

def blockEntry? (s : Lexer) : Option Lexer :=
  if s.inFlow then none
  else if !s.keyAllowed then none
  else do
    let s := s.openBlock s.column s.tokens.size .blockSequenceStart
    let s ← s.dropKey?
    some ({ s with keyAllowed := true }.advance 1 |>.push .blockEntry)

def key? (s : Lexer) : Option Lexer :=
  if !s.inFlow && !s.keyAllowed then none
  else do
    let s := if s.inFlow then s else s.openBlock s.column s.tokens.size .blockMappingStart
    let s ← s.dropKey?
    some ({ s with keyAllowed := !s.inFlow }.advance 1 |>.push .key)

def value? (s : Lexer) : Option Lexer :=
  match s.keys.find? (·.1 == s.depth) with
  | some (_, k) =>
    let s := { s with
      keys := s.keys.filter (·.1 != s.depth)
      tokens := s.tokens.insertIdxIfInBounds k.token .key
      keyAllowed := false }
    let s := if s.inFlow then s else s.openBlock k.column k.token .blockMappingStart
    some (s.advance 1 |>.push .value)
  | none =>
    if !s.inFlow && !s.keyAllowed then none
    else
      let s := if s.inFlow then s else s.openBlock s.column s.tokens.size .blockMappingStart
      some ({ s with keyAllowed := !s.inFlow }.advance 1 |>.push .value)

def named? (s : Lexer) (t : String → Token) : Option Lexer := do
  let s ← s.saveKey?
  let (text, c) ← name? s.cursor
  some ({ s with cursor := c, keyAllowed := false }.push (t text))

def tagToken? (dialect : Dialect) (s : Lexer) : Option Lexer := do
  let s ← s.saveKey?
  let (t, c) ← tag? dialect s.inFlow s.cursor
  some ({ s with cursor := c, keyAllowed := false }.push t)

def blockScalar? (dialect : Dialect) (s : Lexer) : Option Lexer := do
  let s ← s.dropKey?
  let (text, c) ← block? dialect s.indent s.cursor
  some ({ s with cursor := c, keyAllowed := true }.push (.scalar text false))

def quotedScalar? (s : Lexer) : Option Lexer := do
  let s ← s.saveKey?
  let (text, c) ← quoted? s.cursor
  some ({ s with cursor := c, keyAllowed := false }.push (.scalar text false))

def plainScalar? (dialect : Dialect) (s : Lexer) : Option Lexer := do
  let s ← s.saveKey?
  let (text, broken, c) ← plain? dialect s.inFlow s.indent s.cursor
  some ({ s with cursor := c, keyAllowed := broken }.push (.scalar text true))

def reserved : List Char := "-?:,[]\x7b\x7d#&*!|>'\"%@\x60".toList

def startsPlain (s : Lexer) : Bool :=
  let ch := s.cursor.peek
  let next := s.cursor.peekAt 1
  !(isSpaceOrEnd ch || reserved.contains ch)
    || (!isSpaceOrEnd next && (ch == '-' || (!s.inFlow && (ch == '?' || ch == ':'))))

def directiveToken? (dialect : Dialect) (s : Lexer) : Option Lexer := do
  let s ← (s.unwind (-1)).dropKey?
  let (t, c) ← directive? dialect s.cursor
  some ({ s with cursor := c, keyAllowed := false }.push t)

/-- The token ahead, after blanks and the ends of blocks; the text has not ended. -/
def next? (dialect : Dialect) (s : Lexer) : Option Lexer :=
  let c := s.cursor
  let ch := c.peek
  let free := isSpaceOrEnd (c.peekAt 1)
  if ch == '%' && c.column == 0 then s.directiveToken? dialect
  else if c.column == 0 && c.atMark '-' then s.documentMark? .documentStart
  else if c.column == 0 && c.atMark '.' then s.documentMark? .documentEnd
  else if ch == '[' then s.openFlow? .flowSequenceStart
  else if ch == '\x7b' then s.openFlow? .flowMappingStart
  else if ch == ']' then s.closeFlow? .flowSequenceEnd
  else if ch == '\x7d' then s.closeFlow? .flowMappingEnd
  else if ch == ',' then s.flowEntry?
  else if ch == '-' && free then s.blockEntry?
  else if ch == '?' && (s.inFlow || free) then s.key?
  else if ch == ':' && (s.inFlow || free) then s.value?
  else if ch == '*' then s.named? .alias
  else if ch == '&' then s.named? .anchor
  else if ch == '!' then s.tagToken? dialect
  else if (ch == '|' || ch == '>') && !s.inFlow then s.blockScalar? dialect
  else if ch == '\'' || ch == '"' then s.quotedScalar?
  else if s.startsPlain then s.plainScalar? dialect
  else none

def run? (dialect : Dialect) : Nat → Lexer → Option (List Token)
  | 0, _ => none
  | fuel + 1, s => do
    let s ← (s.skipSpace dialect (s.cursor.rest.length + 1)).dropStale?
    let s := s.unwind s.column
    if s.cursor.rest.isEmpty then
      let s ← (s.unwind (-1)).dropKey?
      some s.tokens.toList
    else
      let s ← s.next? dialect
      run? dialect fuel s

end Lexer

def isYamlChar (c : Char) : Bool :=
  let n := c.toNat
  n == 9 || n == 10 || n == 13 || (0x20 ≤ n && n ≤ 0x7e) || n == 0x85 || (0xa0 ≤ n && n ≤ 0xd7ff)
    || (0xe000 ≤ n && n ≤ 0xfffd) || 0x10000 ≤ n

/-- The tokens of a text; every one takes at least one character. -/
def tokens? (dialect : Dialect) (text : String) : Option (List Token) :=
  let cs := text.toList
  if cs.all isYamlChar then (Lexer.start cs).run? dialect (cs.length + 2) else none

end VaultSchema.Yaml
