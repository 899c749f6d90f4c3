import VaultSchema.Value.Spelling
import VaultSchema.Yaml.Tag

/-! YAML text of values in block notation. A text is written plainly where it reads back as itself,
in single quotes where it holds nothing that needs an escape, and in double quotes otherwise. Lines
that have grown long are broken at single blanks. -/

set_option autoImplicit false

namespace VaultSchema.Yaml

/-- A blank beyond this column is a place to break a line. -/
def bestWidth : Nat := 80

def isLineEnd (c : Char) : Bool := c == '\n' || [0x85, 0x2028, 0x2029].contains c.toNat

def isGap (c : Char) : Bool := isLineEnd c || c == '\r' || c == ' ' || c == '\t' || c.toNat == 0

def isShown (c : Char) : Bool :=
  let n := c.toNat
  (0x20 ≤ n && n ≤ 0x7e) || (0xa0 ≤ n && n ≤ 0xd7ff) || (0xe000 ≤ n && n ≤ 0xfffd)

def isOrdinary (c : Char) : Bool :=
  let n := c.toNat
  c == '\n' || ((isShown c || n == 0x85 || (0x10000 ≤ n && n < 0x10ffff)) && n != 0xfeff)

def leadingMarks : List Char := "#,[]\x7b\x7d&*!|>'\"%@\x60".toList

def anyNeighbours (p : Char → Char → Bool) (cs : List Char) : Bool := (cs.zip (cs.drop 1)).any fun e => p e.1 e.2

/-- Read plainly, a part of the text would be taken for structure. -/
def hasStructure (cs : List Char) : Bool :=
  let alone := (cs.drop 1).head?.all isGap
  ["---".toList, "...".toList].contains (cs.take 3)
    || cs.head?.any (fun c => leadingMarks.contains c || (alone && "?:-".toList.contains c))
    || anyNeighbours (fun a b => (a == ':' && isGap b) || (isGap a && b == '#')) cs
    || cs.getLast? == some ':'

def hasLooseSpace (cs : List Char) : Bool :=
  cs.head?.any (fun c => c == ' ' || isLineEnd c) || cs.getLast?.any fun c => c == ' ' || isLineEnd c

def allowsPlain (cs : List Char) : Bool :=
  !hasLooseSpace cs && cs.all (fun c => isOrdinary c && !isLineEnd c) && !hasStructure cs

def allowsSingleQuotes (cs : List Char) : Bool :=
  cs.all isOrdinary && !anyNeighbours (fun a b => (isLineEnd a && b == ' ') || (a == ' ' && isLineEnd b)) cs

structure Written where
  text : List Char
  column : Nat

namespace Written

def add (w : Written) (cs : List Char) : Written := ⟨w.text ++ cs, w.column + cs.length⟩

def indent (n : Nat) : List Char := List.replicate n ' '

def newLine (w : Written) (n : Nat) : Written := ⟨w.text ++ '\n' :: indent n, n⟩

end Written

def runs (p : Char → Nat) : List Char → List (List Char)
  | [] => []
  | c :: rest =>
    match runs p rest with
    | (d :: ds) :: others => if p c == p d then (c :: d :: ds) :: others else [c] :: (d :: ds) :: others
    | others => [c] :: others

def spaceKind (c : Char) : Nat := if c == ' ' then 1 else if isLineEnd c then 2 else 0

def writePlain (n : Nat) (w : Written) : List (List Char) → Written
  | [] => w
  | run :: rest =>
    let next := if run == [' '] && bestWidth < w.column then w.newLine n else w.add run
    writePlain n next rest

/-- Line ends as they stand in quotes: a line feed needs a second one to be kept. -/
def writeLineEnds (n : Nat) (w : Written) (run : List Char) : Written :=
  let ends := if run.head? == some '\n' then '\n' :: run else run
  ⟨w.text ++ ends ++ Written.indent n, n⟩

def writeSingle (n : Nat) (first : Bool) (w : Written) : List (List Char) → Written
  | [] => w
  | run :: rest =>
    let next :=
      if run.head?.any isLineEnd then writeLineEnds n w run
      else if run == [' '] && bestWidth < w.column && !first && !rest.isEmpty then w.newLine n
      else w.add (run.flatMap fun c => if c == '\'' then ['\'', '\''] else [c])
    writeSingle n false next rest

def namedEscapes : List (Nat × Char) :=
  [(0, '0'), (7, 'a'), (8, 'b'), (9, 't'), (10, 'n'), (11, 'v'), (12, 'f'), (13, 'r'), (27, 'e'), (0x22, '"'),
    (0x5c, '\\'), (0x85, 'N'), (0xa0, '_'), (0x2028, 'L'), (0x2029, 'P')]

def upperHex (width n : Nat) : List Char := (hexText width n).toList.map Char.toUpper

def escape (c : Char) : List Char :=
  let n := c.toNat
  '\\' :: match namedEscapes.find? fun e => e.1 == n with
    | some (_, d) => [d]
    | none =>
      if n ≤ 0xff then 'x' :: upperHex 2 n
      else if n ≤ 0xffff then 'u' :: upperHex 4 n
      else 'U' :: upperHex 8 n

def needsEscape (c : Char) : Bool :=
  c == '"' || c == '\\' || !isShown c || [0x2028, 0x2029, 0xfeff].contains c.toNat

/-- A break of a line inside double quotes. A blank that would begin the next line is marked. -/
def breakDouble (n : Nat) (w : Written) (next : Option Char) : Written :=
  let broken := (w.add ['\\']).newLine n
  if next == some ' ' then broken.add ['\\'] else broken

/-- The inside of double quotes. Characters behind the last escape or break are held until the next. A
line that has grown long breaks before a blank, and before and after an escape. -/
def writeDouble (n : Nat) (first : Bool) (w : Written) (held : List Char) : List Char → Written
  | [] => w.add held
  | c :: rest =>
    let inside := !first && !rest.isEmpty
    if needsEscape c then
      let escaped := (w.add held).add (escape c)
      let broken := inside && bestWidth + 1 < escaped.column
      writeDouble n false (if broken then breakDouble n escaped rest.head? else escaped) [] rest
    else if inside && (c == ' ' || held.isEmpty) && bestWidth < w.column + held.length then
      writeDouble n false (breakDouble n (w.add held) (some c)) [c] rest
    else writeDouble n false w (held ++ [c]) rest

def writeText (n : Nat) (w : Written) (s : String) : Written :=
  let cs := s.toList
  if !cs.isEmpty && Tag.ofPlain s == .text && allowsPlain cs then
    writePlain n (w.add [' ']) (runs spaceKind cs)
  else if allowsSingleQuotes cs then
    (writeSingle n true (w.add [' ', '\'']) (runs spaceKind cs)).add ['\'']
  else (writeDouble n true (w.add [' ', '"']) [] cs).add ['"']

def floatText (x : Binary64) : String :=
  match x with
  | .nan => ".nan"
  | .infinite s => if s then "-.inf" else ".inf"
  | x =>
    let cs := (Decimal.text .plain x).toList
    if cs.contains 'e' && !cs.contains '.' then
      String.ofList (cs.takeWhile (· != 'e') ++ ".0".toList ++ cs.dropWhile (· != 'e'))
    else String.ofList cs

def writeScalar (n : Nat) (w : Written) : Scalar → Written
  | .null => w.add " null".toList
  | .bool b => w.add (if b then " true" else " false").toList
  | .float x => w.add (' ' :: (floatText x).toList)
  | .text s => writeText n w s
  | s => w.add (' ' :: ((s.spelling).toOption.getD "").toList)

mutual

def writeValue (n : Nat) (inEntry : Bool) (w : Written) : Value → Written
  | .scalar s => writeScalar (n + 2) w s
  | .sequence _ [] => w.add " []".toList
  | .mapping [] => w.add " \x7b\x7d".toList
  | .sequence _ (v :: rest) =>
    if inEntry then writeItems n (w.newLine n) (v :: rest)
    else writeItems (n + 2) (w.add [' ']) (v :: rest)
  | .mapping (e :: rest) =>
    if inEntry then writeEntries (n + 2) (w.newLine (n + 2)) (e :: rest)
    else writeEntries (n + 2) (w.add [' ']) (e :: rest)

def writeItems (n : Nat) (w : Written) : List Value → Written
  | [] => w
  | v :: rest =>
    let w := writeValue n false (w.add ['-']) v
    if rest.isEmpty then w else writeItems n (w.newLine n) rest

def writeEntries (n : Nat) (w : Written) : List (Scalar × Value) → Written
  | [] => w
  | (k, v) :: rest =>
    let key : Written := writeScalar 0 ⟨[], 0⟩ k
    let w := writeValue n true (w.add (key.text.drop 1 ++ [':'])) v
    if rest.isEmpty then w else writeEntries n (w.newLine n) rest

end

def write (m : Entries) : String := String.ofList ((writeEntries 0 ⟨[], 0⟩ m).text ++ ['\n'])

end VaultSchema.Yaml
