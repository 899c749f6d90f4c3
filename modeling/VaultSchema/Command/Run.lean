import VaultSchema.Command.Report
import VaultSchema.Command.Request
import VaultSchema.Definition.Reading
import VaultSchema.Engine.Session
import VaultSchema.Schema.File
import VaultSchema.Settings.Basic
import VaultSchema.Vault.Notes
import VaultSchema.Vault.State

/-! Commands carried out on a tree of files. A command ends with a code, the page that it shows, and
the tree with what it saved. -/

set_option autoImplicit false

namespace VaultSchema.Command

open Console

structure Place where
  folder : String
  environment : List (String × String)
  tree : FileTree

structure Outcome where
  exit : Nat
  text : String
  tree : FileTree

/-- Why a command does not come to its end: for a reason that is told, or for one that is not. -/
inductive Stop where
  | told (message : String)
  | silent
  deriving DecidableEq, Repr

def Stop.ofMessage : Option String → Stop
  | some m => .told m
  | none => .silent

def ending (t : FileTree) (p : Page) (code : Nat) : Outcome := ⟨if p.failed then 1 else code, p.text, t⟩

def stopped (t : FileTree) : Stop → Outcome
  | .told m => ending t (Page.print {} ("[red]Error: " ++ m ++ "[/red]")) 1
  | .silent => ⟨1, "", t⟩

structure Call extends Place where
  settings : Settings

namespace Call

def path (c : Call) (p : String) : String := Path.resolve c.folder p

def statePath (c : Call) : String := c.path c.settings.statePath

def schemas (c : Call) : Except Stop SchemaSet := do
  let path := c.path c.settings.schemaPath
  if !c.tree.exists? path then return {}
  let text ← (c.tree.read path).mapError fun _ => .silent
  let entries ← (SchemaFile.parse text (Path.suffix path)).mapError fun f => .ofMessage f.message
  (SchemaSet.load entries).mapError fun f => .ofMessage f.message

def prepare (c : Call) (cached : Bool) : Except Stop Engine := do
  if !c.tree.isFolder (c.path c.settings.vaultPath) then
    throw (.told ("Vault folder not found: " ++ c.settings.vaultPath))
  let set ← c.schemas
  let options : EngineOptions :=
    ⟨c.settings.warnOnUnknown, c.settings.allowNative, c.settings.batchSize⟩
  let blobs := StateFolder.blobs c.tree c.statePath [TagIndex.blobName, Cache.blobName]
  return Engine.create options {} blobs set cached {}

def withNotes (c : Call) (e : Engine) : Except Stop Engine := do
  let vault : VaultNotes := { root := c.path c.settings.vaultPath }
  let notes ← (vault.scan c.tree).mapError fun _ => .silent
  return { e with notes := notes }

def saved (c : Call) (b : BlobStore) : FileTree := StateFolder.saveAll c.tree c.statePath b .zero

def withEngine {α : Type} (c : Call) (e : Engine) (work : Engine.Run α) : Except Stop (α × Engine) × FileTree :=
  let (result, after) := work.run.run e
  let (closing, last) := Engine.shutdown.run.run after
  let tree := c.saved last.blobs
  match result, closing with
  | .ok a, .ok _ => (.ok (a, last), tree)
  | _, _ => (.error .silent, tree)

def orStopped (c : Call) (r : Except Stop Outcome) : Outcome :=
  match r with
  | .ok o => o
  | .error s => stopped c.tree s

def report {α : Type} (c : Call) (e : Engine) (work : Engine.Run α)
    (page : α → Engine → Except Stop (Page × Nat)) : Except Stop Outcome := do
  let e ← c.withNotes e
  let (result, tree) := c.withEngine e work
  return match result.bind fun (a, last) => page a last with
    | .ok (p, code) => ending tree p code
    | .error s => stopped tree s

def validate (c : Call) (schema : Option String) (strict errorsOnly json cached : Bool) :
    Except Stop Outcome := do
  let e ← c.prepare (cached && schema.isNone)
  let conclude (_ : Unit) (last : Engine) : Except Stop (Page × Nat) :=
    .ok (validationPage last.schemaSet last.violations errorsOnly json,
      if strict && last.violations.hasErrors then 1 else 0)
  match schema with
  | none => c.report e (Engine.startup none) conclude
  | some id =>
    match e.schemaSet.find? id with
    | none => return ending c.tree (Page.print {} ("[red]No schema found with id: " ++ id ++ "[/red]")) 1
    | some s =>
      c.report e (do Engine.startIndex; discard (Engine.validateSchema s none)) conclude

/-- The query is read before anything else is. -/
def query (c : Call) (text : String) (json : Bool) : Except Stop Outcome := do
  let q ← (Query.read text).mapError fun f => .told f.message
  let e ← c.prepare false
  c.report e Engine.startIndex fun _ last => do
    let found ← (last.catalog.select q).mapError fun _ => .silent
    return (queryPage q text (found.map (·.id)) json, 0)

def inferTemplate (c : Call) (template : String) : Except Stop Outcome := do
  let name := Path.normalize template
  let path := c.path (Path.join c.settings.vaultPath template)
  if !c.tree.isFile path then throw (.told ("Template not found: " ++ name))
  let content ← (c.tree.read path).mapError fun _ => .silent
  let note ← (Note.parse content).mapError fun f =>
    match f with
    | .badKey | .yaml .malformed => .told "Invalid YAML in frontmatter"
    | .yaml _ => .silent
  let fields ← (Inference.fromTemplate (note.frontmatter.getD []) []).mapError fun _ => .silent
  return ending c.tree (templatePage name fields) 0

def inferQuery (c : Call) (text : String) (threshold : Binary64) : Except Stop Outcome := do
  let e ← c.prepare false
  let limits : Inference.Limits := { optional := threshold }
  c.report e Engine.startIndex fun _ last => do
    let q ← (Query.read text).mapError fun f => .told f.message
    let found ← (last.catalog.select q).mapError fun _ => .silent
    let s ← (Inference.fromNotes (found.map (·.entries)) limits).mapError fun _ => .silent
    return (suggestionPage s text threshold, 0)

def rebuildIndex (c : Call) : Except Stop Outcome := do
  let e ← c.withNotes (← c.prepare false)
  let rebuilt := e.index.rebuild e.notes e.blobs
  let tree := c.saved rebuilt.blobs
  if rebuilt.fault.isSome then return stopped tree .silent
  else return ending tree (rebuiltPage rebuilt.value.index) 0

def showIndex (c : Call) (tags : Bool) : Except Stop Outcome := do
  let e ← c.prepare false
  c.report e Engine.startIndex fun _ last => do
    let page := Page.grid {} (statsGrid last.index.index)
    if tags then
      let rows ← last.index.index.toRows.mapError fun _ => .silent
      return (page.grid (tagsGrid rows), 0)
    else return (page, 0)

def perform (c : Call) (r : Request) : Outcome :=
  match r with
  | .inferUnclear => stopped c.tree (.told "pass either a TEMPLATE or --query")
  | .validate schema strict errorsOnly json cached =>
    c.orStopped (c.validate schema strict errorsOnly json cached)
  | .query text json => c.orStopped (c.query text json)
  | .inferTemplate path => c.orStopped (c.inferTemplate path)
  | .inferQuery q threshold => c.orStopped (c.inferQuery q threshold)
  | .rebuildIndex => c.orStopped c.rebuildIndex
  | .showIndex tags => c.orStopped (c.showIndex tags)

end Call

def logLevels : List String := ["TRACE", "DEBUG", "INFO", "SUCCESS", "WARNING", "ERROR", "CRITICAL"]

def isLogLevel (s : String) : Bool := logLevels.contains (String.ofList (s.toList.map Char.toUpper))

def helpText : String :=
  "Usage: noteschema [OPTIONS] COMMAND [ARGS]...\n\nValidate note frontmatter against schemas.\n\n"
    ++ "Commands: validate, query, infer, index rebuild, index stats\n"

def refused (t : FileTree) : Refusal → Outcome
  | .misuse => ⟨2, "", t⟩
  | .help => ⟨0, helpText, t⟩
  | .version => ⟨0, "noteschema version: 0.1.0\n", t⟩

def settings? (p : Place) (g : Globals) : Option Settings :=
  let named (name : String) (value : Option String) : Entries :=
    (value.map fun v => [(Scalar.text name, Value.text v)]).getD []
  let given := named "vault_path" g.vault ++ named "config_file" g.config ++ named "log_level" g.logLevel
  match Settings.read p.folder ⟨given, p.environment⟩ with
  | .good s => if isLogLevel s.logLevel then some s else none
  | _ => none

def run (p : Place) (words : List String) : Outcome :=
  match Globals.read words with
  | .error r => refused p.tree r
  | .ok g =>
    match settings? p g with
    | none => stopped p.tree .silent
    | some s =>
      match g.request with
      | .error r => refused p.tree r
      | .ok request => Call.perform ⟨p, s⟩ request

end VaultSchema.Command
