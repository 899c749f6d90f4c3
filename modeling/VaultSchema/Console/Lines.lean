import VaultSchema.Console.Width
import VaultSchema.Text.Basic
import VaultSchema.Text.Blank

set_option autoImplicit false

namespace VaultSchema.Console

def tabWidth : Nat := 8

def expandTabs (column : Nat) : List Char → List Char
  | [] => []
  | '\t' :: rest =>
    let blanks := tabWidth - column % tabWidth
    List.replicate blanks ' ' ++ expandTabs (column + blanks) rest
  | c :: rest => c :: expandTabs (column + charWidth c) rest

def splitWord (cs : List Char) : List Char × List Char :=
  let before := cs.takeWhile Text.isBlank
  let word := (cs.drop before.length).takeWhile (!Text.isBlank ·)
  let after := (cs.drop (before.length + word.length)).takeWhile Text.isBlank
  let length := before.length + word.length + after.length
  (cs.take length, cs.drop length)

def words : Nat → List Char → List (List Char)
  | 0, _ => []
  | fuel + 1, cs =>
    if cs.all Text.isBlank then []
    else
      let (word, rest) := splitWord cs
      word :: words fuel rest

def chop (limit : Nat) (piece : List Char) : List Char → List (List Char)
  | [] => [piece]
  | c :: rest =>
    if limit < width piece + charWidth c then piece :: chop limit [c] rest
    else chop limit (piece ++ [c]) rest

def fill (limit : Nat) (line : List Char) (column : Nat) : List (List Char) → List (List Char)
  | [] => [line]
  | word :: rest =>
    let wide := width (Text.trimEndList Text.isBlank word)
    if column + wide ≤ limit then fill limit (line ++ word) (column + width word) rest
    else if limit < wide then
      let pieces := chop limit [] word
      let last := (pieces.getLast?).getD []
      let others := if line.isEmpty then pieces.dropLast else line :: pieces.dropLast
      others ++ fill limit last (width last) rest
    else if column == 0 || line.isEmpty then fill limit (line ++ word) column rest
    else line :: fill limit word (width word) rest

/-- White space at the end that goes beyond the limit is dropped. -/
def cropEnd (limit : Nat) (line : List Char) : List Char :=
  let blanks := (line.reverse.takeWhile Text.isBlank).length
  line.take (line.length - min blanks (line.length - limit))

def layOut (limit : Nat) (text : List Char) : List (List Char) :=
  (Text.splitList (· == '\n') text).flatMap fun line =>
    let line := expandTabs 0 line
    let lines := if line.all Text.isBlank then [line] else fill limit [] 0 (words line.length line)
    lines.map (cropEnd limit)

inductive Alignment where
  | left
  | centre
  | right
  deriving DecidableEq, Repr

/-- A line with blanks around it up to a width. Of an odd number of blanks the one more goes right. -/
def align (a : Alignment) (wide : Nat) (line : List Char) : List Char :=
  let pad (n : Nat) := List.replicate n ' '
  match a with
  | .left => line ++ pad (wide - width line)
  | .centre =>
    let line := Text.trimEndList Text.isBlank line
    let free := wide - width line
    pad (free / 2) ++ line ++ pad (free - free / 2)
  | .right =>
    let line := Text.trimEndList Text.isBlank line
    pad (wide - width line) ++ line

end VaultSchema.Console
