import VaultSchema.Command.Options
import VaultSchema.Number.LooseReading

set_option autoImplicit false

namespace VaultSchema.Command

inductive Request where
  | validate (schema : Option String) (strict errorsOnly json cached : Bool)
  | query (text : String) (json : Bool)
  | inferTemplate (path : String)
  | inferQuery (query : String) (threshold : Binary64)
  | inferUnclear
  | rebuildIndex
  | showIndex (tags : Bool)
  deriving DecidableEq, Repr

inductive Refusal where
  | misuse
  | help
  | version
  deriving DecidableEq, Repr

structure Globals where
  vault : Option String
  config : Option String
  logLevel : Option String
  command : String
  words : List String
  deriving DecidableEq, Repr

def helpOption : OptionSpec := ⟨"help", none, false⟩

/-- Of help and version the one that is asked for first is given. -/
def checkAside (p : Parsed) : Except Refusal Unit :=
  match p.options.find? fun o => o.1 == "help" || o.1 == "version" with
  | some ("help", _) => .error .help
  | some _ => .error .version
  | none => .ok ()

def read (specs : List OptionSpec) (mixed : Bool) (words : List String) : Except Refusal Parsed :=
  match parse? (helpOption :: specs) mixed words with
  | none => .error .misuse
  | some p => do
    checkAside p
    return p

def commands : List String := ["validate", "query", "infer", "index"]

def Globals.read (words : List String) : Except Refusal Globals := do
  let specs : List OptionSpec := [⟨"vault", none, true⟩, ⟨"config", some 'c', true⟩,
    ⟨"log-level", none, true⟩, ⟨"version", some 'v', false⟩]
  let p ← Command.read specs false words
  match p.words with
  | [] => .error .misuse
  | command :: rest =>
    if commands.contains command then
      return ⟨p.value? "vault", p.value? "config", p.value? "log-level", command, rest⟩
    else .error .misuse

def readValidate (words : List String) : Except Refusal Request := do
  let p ← read [⟨"schema", some 's', true⟩, ⟨"strict", none, false⟩, ⟨"errors-only", none, false⟩,
    ⟨"json", none, false⟩, ⟨"no-cache", none, false⟩] true words
  let cached := !p.has "no-cache"
  if p.words.isEmpty then
    return .validate (p.value? "schema") (p.has "strict") (p.has "errors-only") (p.has "json") cached
  else .error .misuse

def readQuery (words : List String) : Except Refusal Request := do
  let p ← read [⟨"json", none, false⟩] true words
  match p.words with
  | [text] => return .query text (p.has "json")
  | _ => .error .misuse

def standardThreshold : Binary64 := .ofRatio false 1 4

def readInfer (words : List String) : Except Refusal Request := do
  let p ← read [⟨"query", some 'q', true⟩, ⟨"threshold", none, true⟩] true words
  let threshold ←
    match p.value? "threshold" with
    | none => .ok standardThreshold
    | some s => ((Decimal.readLoose? s).map .ok).getD (.error .misuse)
  match p.words, p.value? "query" with
  | [], some q => return .inferQuery q threshold
  | [template], none => return .inferTemplate template
  | [], none | [_], some _ => return .inferUnclear
  | _, _ => .error .misuse

def readIndex (words : List String) : Except Refusal Request := do
  let p ← read [] false words
  match p.words with
  | "rebuild" :: rest =>
    let p ← read [] true rest
    if p.words.isEmpty then return .rebuildIndex else .error .misuse
  | "stats" :: rest =>
    let p ← read [⟨"tags", none, false⟩] true rest
    if p.words.isEmpty then return .showIndex (p.has "tags") else .error .misuse
  | _ => .error .misuse

def Globals.request (g : Globals) : Except Refusal Request :=
  match g.command with
  | "validate" => readValidate g.words
  | "query" => readQuery g.words
  | "infer" => readInfer g.words
  | _ => readIndex g.words

end VaultSchema.Command
