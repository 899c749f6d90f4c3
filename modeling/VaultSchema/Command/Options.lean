/-! Options among the words of a command line. Long options may have their value behind an equals
sign, short ones may stand together, the last of them with its value. Two hyphens end the options.
-/

set_option autoImplicit false

namespace VaultSchema.Command

structure OptionSpec where
  name : String
  short : Option Char := none
  takesValue : Bool := false
  deriving DecidableEq, Repr

structure Parsed where
  options : List (String × String) := []
  words : List String := []
  deriving DecidableEq, Repr

namespace Parsed

def has (p : Parsed) (name : String) : Bool := p.options.any (·.1 == name)

def value? (p : Parsed) (name : String) : Option String :=
  (p.options.reverse.find? (·.1 == name)).map Prod.snd

def withOptions (p : Parsed) (found : List (String × String)) : Parsed := { p with options := found ++ p.options }

def withWord (p : Parsed) (word : String) : Parsed := { p with words := word :: p.words }

end Parsed

abbrev Taken := List (String × String) × List String

def takeValue? (name : String) : List String → Option Taken
  | [] => none
  | v :: rest => some ([(name, v)], rest)

def takeLong? (specs : List OptionSpec) (word : List Char) (rest : List String) : Option Taken := do
  let name := word.takeWhile (· != '=')
  let spec ← specs.find? (·.name.toList == name)
  if word.contains '=' then
    if spec.takesValue then some ([(spec.name, String.ofList (word.drop (name.length + 1)))], rest) else none
  else if spec.takesValue then takeValue? spec.name rest
  else some ([(spec.name, "")], rest)

def takeShort? (specs : List OptionSpec) (rest : List String) : List Char → Option Taken
  | [] => some ([], rest)
  | c :: more => do
    let spec ← specs.find? (·.short == some c)
    if spec.takesValue then
      if more.isEmpty then takeValue? spec.name rest else some ([(spec.name, String.ofList more)], rest)
    else
      let (others, rest) ← takeShort? specs rest more
      some ((spec.name, "") :: others, rest)

def parseWords? (specs : List OptionSpec) (mixed : Bool) : Nat → List String → Option Parsed
  | 0, words => some { words := words }
  | _, [] => some {}
  | fuel + 1, w :: rest =>
    match w.toList with
    | ['-', '-'] => some { words := rest }
    | '-' :: '-' :: name => do
      let (found, rest) ← takeLong? specs name rest
      return (← parseWords? specs mixed fuel rest).withOptions found
    | '-' :: c :: more => do
      let (found, rest) ← takeShort? specs rest (c :: more)
      return (← parseWords? specs mixed fuel rest).withOptions found
    | _ =>
      if mixed then (parseWords? specs mixed fuel rest).map (·.withWord w)
      else some { words := w :: rest }

def parse? (specs : List OptionSpec) (mixed : Bool) (words : List String) : Option Parsed :=
  parseWords? specs mixed words.length words

end VaultSchema.Command
