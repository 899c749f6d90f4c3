import VaultSchema.Engine.Basic

/-! Reports of duplicate values. They concern all notes that a schema selects, so a change of one
note makes them be computed anew for every schema with unique fields that it touches. -/

set_option autoImplicit false

namespace VaultSchema.Engine

def refreshCached (id : String) : Run Unit := do
  let current := (← get).violations.ofNote id
  onCache fun c => c.updateViolations id current

def reportDuplicate (s : Schema) (v : Violation) : Run Unit :=
  onViolations fun store => store.replaceField v.document s.id v.field .duplicateValue [v]

def reportDuplicates (s : Schema) (found : List Violation) : Run Unit := do
  each (reportDuplicate s) found
  each refreshCached (Text.distinct (found.map (·.document)))

def observe (s : Schema) (seen : UniqueValues) (d : Document) : Run UniqueValues := do
  let (seen, found) := seen.observe s d.id d.frontmatter
  reportDuplicates s (← ofValue found)
  return seen

def observeAll (s : Schema) (seen : UniqueValues) : List Document → Run Unit
  | [] => pure ()
  | d :: rest => do observeAll s (← observe s seen d) rest

def rescan (s : Schema) : Run Unit := do
  if !s.hasUniqueFields || !s.enabled then return
  let notes ← ofValue ((← get).selected s)
  batched do
    let old := ((← get).violations.ofSchema s.id).filter (·.kind == .duplicateValue)
    onViolations fun v => v.removeKind s.id .duplicateValue
    observeAll s {} notes
    each refreshCached (Text.distinct (old.map (·.document)))

end VaultSchema.Engine
