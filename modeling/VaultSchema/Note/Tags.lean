import VaultSchema.Value.FoldedKeys
import VaultSchema.Text.Word
import VaultSchema.Text.Digit

/-! Tags of a note: those its frontmatter declares, and those its body holds outside code. A tag in
the body is a number sign at the start, behind white space or behind an opening bracket, with word
characters, slashes and hyphens after it, not all of them digits. -/

set_option autoImplicit false

namespace VaultSchema.Tags

/-- Without blanks around it, then number signs before it, then slashes around it. -/
def clean (tag : String) : String :=
  Text.trimBy (· == '/') (Text.trimStartBy (· == '#') (Text.trim tag))

def gather (tags : List String) : List String := Text.distinct (tags.filter (· != ""))

/- Declared tags. -/

def splitDeclared (s : String) : List String :=
  (Text.splitList (fun c => c == ',' || Text.isBlank c) s.toList).map String.ofList

def declaredTexts : List Value → Except ValueFault (List String)
  | [] => .ok []
  | v :: rest => do
    if v.isNull then declaredTexts rest
    else
      let text ← v.spelling
      let others ← declaredTexts rest
      return clean text :: others

/-- The tags under the key `tags`, or else `tag`: the members of a list, or the words of a text. -/
def declared (frontmatter : Entries) : Except ValueFault (List String) := do
  let keys ← FoldedKeys.ofEntries frontmatter
  match (keys.value? "tags").or (keys.value? "tag") with
  | some (.text s) => return gather ((splitDeclared s).map clean)
  | some (.sequence _ items) => return gather (← declaredTexts items)
  | _ => return []

/- Tags in the body. -/

def fences : List (List Char) := ["\x60\x60\x60".toList, "~~~".toList]

def fenceAt? (cs : List Char) : Option (List Char) := fences.find? fun f => f.isPrefixOf cs

def afterFence? (fence : List Char) : List Char → Option (List Char)
  | [] => none
  | c :: rest =>
    if c == '\n' && fence.isPrefixOf rest then some (rest.drop fence.length)
    else afterFence? fence rest

/-- The body without fenced blocks, of which the rest of the closing line stays. A fence that is
not closed is kept. `lineStart` tells whether a line begins here. -/
def dropFenced : Nat → Bool → List Char → List Char
  | 0, _, cs => cs
  | _ + 1, _, [] => []
  | fuel + 1, lineStart, c :: rest =>
    let closed := if lineStart then
      (fenceAt? (c :: rest)).bind fun f => afterFence? f ((c :: rest).drop f.length) else none
    match closed with
    | some after => dropFenced fuel false after
    | none => c :: dropFenced fuel (c == '\n') rest

def backtick : Char := '\x60'

def afterSpan? : List Char → Option (List Char)
  | [] => none
  | c :: rest => if c == backtick then some rest else if c == '\n' then none else afterSpan? rest

def dropSpans : Nat → List Char → List Char
  | 0, cs => cs
  | _ + 1, [] => []
  | fuel + 1, c :: rest =>
    match if c == backtick then afterSpan? rest else none with
    | some after => dropSpans fuel after
    | none => c :: dropSpans fuel rest

def withoutCode (body : List Char) : List Char :=
  let unfenced := dropFenced (body.length + 1) true body
  dropSpans (unfenced.length + 1) unfenced

def isTagChar (c : Char) : Bool := Text.isWord c || c == '/' || c == '-'

/-- A tag may begin behind this character, or where there is none. -/
def mayPrecede (c : Option Char) : Bool :=
  c.all fun c => Text.isBlank c || c == '(' || c == '['

/-- The runs of tag characters behind number signs where a tag may begin. `skip` characters belong
to a run already taken. -/
def runsFrom : Nat → Option Char → List Char → List (List Char)
  | _, _, [] => []
  | skip + 1, _, c :: rest => runsFrom skip (some c) rest
  | 0, before, c :: rest =>
    let run := rest.takeWhile isTagChar
    if c == '#' && mayPrecede before && !run.isEmpty then
      run :: runsFrom run.length (some c) rest
    else runsFrom 0 (some c) rest

def isNumeric (tag : String) : Bool :=
  tag.toList.all fun c => Text.isDecimalDigit c || c == '/'

def inBody (body : String) : List String :=
  gather (((runsFrom 0 none (withoutCode body.toList)).map fun run =>
    clean (String.ofList run)).filter fun tag => !isNumeric tag)

def ofNote (frontmatter : Entries) (body : String) : Except ValueFault (List String) := do
  let own ← declared frontmatter
  return own ++ (inBody body).filter fun tag => !own.contains tag

end VaultSchema.Tags
