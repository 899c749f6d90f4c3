import VaultSchema.Console.Page
import VaultSchema.Query.Basic
import VaultSchema.Report.ViolationStore
import VaultSchema.Schema.Inference
import VaultSchema.Yaml.Writing
import VaultSchema.Index.TagIndex

set_option autoImplicit false

namespace VaultSchema.Command

open Console

def jsonText (v : Value) : String := (Json.write .indented v).toOption.getD ""

def record (fields : List (String × Value)) : Value := .mapping (fields.map fun (k, v) => (.text k, v))

def percentText (x : Binary64) : String :=
  let hundredths := Binary64.scale 100 x
  let digits :=
    match hundredths with
    | .nan => "nan"
    | .infinite _ => "inf"
    | .finite _ u => toString (Binary64.roundHalfEven u Binary64.unit)
  (if hundredths.isNegative then "-" else "") ++ digits ++ "%"

def violationsJson (s : ViolationStore) (severity : Severity) : String :=
  let counts := s.counts
  jsonText (record [
    ("documents", .mapping ((s.grouped severity).map fun (id, vs) =>
      (.text id, .list (vs.map fun v => .mapping v.toEntries)))),
    ("errors", .int counts.errors), ("warnings", .int counts.warnings)])

def violationRow (v : Violation) : List String :=
  [v.schema, if v.field.isEmpty then "-" else v.field,
    if v.isWarning then "[yellow]warning[/yellow]" else "[red]error[/red]", v.message]

def violationGrid (id : String) (vs : List Violation) : Grid where
  title := id
  titleAlignment := .left
  columns := [⟨"Schema", .left⟩, ⟨"Field", .left⟩, ⟨"Level", .centre⟩, ⟨"Message", .left⟩]
  rows := vs.map violationRow

def printViolations (p : Page) (s : ViolationStore) (severity : Severity) : Page :=
  let counts := s.counts
  let p := (s.grouped severity).foldl (fun p (id, vs) => p.grid (violationGrid id vs)) p
  p.print s!"\nSummary: {counts.errors} errors, {counts.warnings} warnings in {counts.notes} notes"

def validationPage (set : SchemaSet) (s : ViolationStore) (errorsOnly json : Bool) : Page :=
  let severity := if errorsOnly then .errors else .all
  let p : Page := {}
  if json then p.line (violationsJson s severity)
  else if set.schemas.isEmpty then p.print "[yellow]No schemas defined.[/yellow]"
  else if (s.grouped severity).isEmpty then p.print "[green]No violations found.[/green]"
  else printViolations p s severity

def queryPage (q : Query) (text : String) (found : List String) (json : Bool) : Page :=
  let p : Page := {}
  if json then p.line (jsonText (record [("query", .text text), ("files", .list (found.map .text))]))
  else
    let p := p.print ("[bold]Query:[/bold] " ++ q.describe)
    if found.isEmpty then p.print "[yellow]No notes matched.[/yellow]"
    else (found.foldl (fun p id => p.print ("  " ++ id)) p).print s!"\n{found.length} notes matched"

def printFields (p : Page) (fields : List FieldSpec) : Page :=
  let p := p.print "\n[bold]Suggested fields:[/bold]"
  p.line (Yaml.write [(.text "fields", .list (fields.map fun f => .mapping f.authored))])

def templatePage (template : String) (fields : List FieldSpec) : Page :=
  let p : Page := {}
  if fields.isEmpty then
    p.print ("[yellow]Template " ++ template ++ " has no frontmatter fields.[/yellow]")
  else
    let grid : Grid := {
      title := "Template: " ++ template
      columns := [⟨"Field", .left⟩, ⟨"Type", .left⟩]
      rows := fields.map fun f => [f.name, f.typeLabel] }
    printFields (p.grid grid) fields

def standingText (s : Inference.Suggestion) (name : String) : String :=
  if s.required.contains name then "[green]required[/green]"
  else if s.optional.contains name then "[yellow]optional[/yellow]"
  else "[dim]excluded[/dim]"

def frequencyGrid (s : Inference.Suggestion) : Grid where
  title := "Field Frequencies"
  columns := [⟨"Field", .left⟩, ⟨"Type", .left⟩, ⟨"Count", .right⟩, ⟨"Percentage", .right⟩,
    ⟨"Suggested", .left⟩]
  rows := s.frequencies.map fun f =>
    [f.name, f.dominantKind.name, toString f.count, percentText f.share, standingText s f.name]

def suggestionPage (s : Inference.Suggestion) (query : String) (threshold : Binary64) : Page :=
  let p : Page := {}
  if s.analyzed == 0 then p.print ("[yellow]No notes matched: " ++ query ++ "[/yellow]")
  else
    let p := p.print ("\n[bold]Analyzed " ++ toString s.analyzed ++ " notes matching: " ++ query
      ++ "[/bold]\n")
    let p := p.grid (frequencyGrid s)
    if s.fields.isEmpty then
      p.print ("\n[yellow]No fields met the " ++ percentText threshold
        ++ " threshold. Try a narrower query or a lower --threshold.[/yellow]")
    else printFields p s.fields

def rebuiltPage (x : TagIndex) : Page :=
  let stats := x.stats
  Page.print {} s!"[green]Rebuilt tag index: {stats.tags} tags across {stats.notes} notes[/green]"

def statsGrid (x : TagIndex) : Grid :=
  let stats := x.stats
  { title := "Tag Index"
    columns := [⟨"Metric", .left⟩, ⟨"Value", .right⟩]
    rows := [["Tags", toString stats.tags], ["Tagged notes", toString stats.notes],
      ["Memberships", toString stats.memberships]] }

def tagsGrid (rows : List (String × List Scalar)) : Grid where
  title := "Tags"
  columns := [⟨"Tag", .left⟩, ⟨"Notes", .right⟩]
  rows := rows.map fun (tag, members) => ["#" ++ tag, toString members.length]

end VaultSchema.Command
