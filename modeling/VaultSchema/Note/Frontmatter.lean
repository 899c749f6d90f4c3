import VaultSchema.Yaml.Reading
import VaultSchema.Note.Tags

/-! The block of YAML in front of a note, between two lines of three or more hyphens. The first line
that is not blank opens it and the next such line closes it. A note without a block has no
frontmatter; a block that is not a mapping holds no entries. -/

set_option autoImplicit false

namespace VaultSchema

inductive NoteFault where
  | yaml (fault : Yaml.YamlFault)
  /-- A key is not a text, or is reserved for the parts of a note. -/
  | badKey
  deriving DecidableEq, Repr

structure Note where
  frontmatter : Option Entries
  body : String

namespace Note

def isFence (line : List Char) : Bool :=
  let hyphens := line.takeWhile (· == '-')
  3 ≤ hyphens.length && (line.dropWhile (· == '-')).all fun c => c == ' ' || c == '\t'

def dropCarriageReturn (line : List Char) : List Char :=
  if line.getLast? == some '\r' then line.dropLast else line

def hasFence : List (List Char) → Bool
  | [] => false
  | [last] => isFence last
  | line :: rest => isFence (dropCarriageReturn line) || hasFence rest

def hasFrontmatter (content : String) : Bool :=
  match Text.splitList (· == '\n') (content.toList.dropWhile Text.isBlank) with
  | first :: (next :: rest) => isFence (dropCarriageReturn first) && hasFence (next :: rest)
  | _ => false

def joinLineEnds : List Char → List Char
  | [] => []
  | '\r' :: '\n' :: rest => '\n' :: joinLineEnds rest
  | c :: rest => c :: joinLineEnds rest

def restOfFence? (cs : List Char) : Option (List Char) :=
  let blanks := cs.takeWhile Text.isBlank
  let rest := cs.dropWhile Text.isBlank
  if rest.isEmpty then some []
  else if blanks.contains '\n' then
    some ('\n' :: (blanks.reverse.takeWhile (· != '\n')).reverse ++ rest)
  else none

def fence? (cs : List Char) : Option (List Char) :=
  if 3 ≤ (cs.takeWhile (· == '-')).length then restOfFence? (cs.dropWhile (· == '-')) else none

def splitAtFence? : List Char → Option (List Char × List Char)
  | [] => none
  | c :: rest =>
    match if c == '\n' then fence? rest else none with
    | some after => some (['\n'], after)
    | none => (splitAtFence? rest).map fun (before, after) => (c :: before, after)

def reservedKeys : List String := ["self", "content", "handler"]

def checkKeys (entries : Entries) : Except NoteFault Entries :=
  if entries.all fun e =>
      match e.1 with
      | .text s => !reservedKeys.contains s
      | _ => false
  then .ok entries
  else .error .badKey

def parse (content : String) : Except NoteFault Note :=
  if !hasFrontmatter content then .ok ⟨none, content⟩
  else
    let text := Text.trimList Text.isBlank (joinLineEnds content.toList)
    match (fence? text).bind splitAtFence? with
    | none => .ok ⟨some [], String.ofList text⟩
    | some (block, body) => do
      let value ← (Yaml.read .note (String.ofList block)).mapError .yaml
      let entries ←
        match value with
        | .mapping entries => checkKeys entries
        | _ => .ok []
      return ⟨some entries, Text.trim (String.ofList body)⟩

end Note
end VaultSchema
