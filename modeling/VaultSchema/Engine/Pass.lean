import VaultSchema.Engine.Duplicates
import VaultSchema.Engine.Notes

/-! Passes over many notes: one schema, all schemas, or a schema that was edited. A pass can be
cancelled between batches of notes; the fingerprint of a schema is cached only when its pass came to
the end. -/

set_option autoImplicit false

namespace VaultSchema.Engine

def startIndex : Run Unit := do
  let e ← get
  let saved := e.index.start e.notes e.blobs
  set { e with index := saved.value, blobs := saved.blobs }
  match saved.fault with
  | none => pure ()
  | some f => throw (.value f)

def atBoundary (o : EngineOptions) (position : Nat) : Bool := position != 0 && position % o.batchSize == 0

def visit (s : Schema) (seen : UniqueValues) (d : Document) : Run UniqueValues := do
  discard (validateNote d s)
  if s.hasUniqueFields then observe s seen d else return seen

def visitAll (s : Schema) (seen : UniqueValues) (position : Nat) (cancel : Cancellation) :
    List Document → Run (Bool × Cancellation)
  | [] => return (true, cancel)
  | d :: rest => do
    let (stop, cancel) :=
      if atBoundary (← get).options position then cancel.boundary else (false, cancel)
    if stop then return (false, cancel)
    visitAll s (← visit s seen d) (position + 1) cancel rest

def validateSchema (s : Schema) (cancel : Cancellation) : Run (Bool × Cancellation) := do
  if !s.enabled then return (true, cancel)
  let notes ← ofValue ((← get).selected s)
  let (finished, cancel) ← batched do
    if s.hasUniqueFields then onViolations fun v => v.removeKind s.id .duplicateValue
    visitAll s {} 0 cancel notes
  if finished then
    let e ← get
    match e.cache with
    | none => pure ()
    | some c => set { e with cache := some (← ofValue (c.updateHash s e.schemaSet.registry)) }
  return (finished, cancel)

/-- Validates schemas up to the first that is cancelled. -/
def validateSchemas (cancel : Cancellation) : List Schema → Run Bool
  | [] => return true
  | s :: rest => do
    let (finished, cancel) ← validateSchema s cancel
    if finished then validateSchemas cancel rest else return false

def cacheUnmatched (d : Document) : Run Unit := do
  let current := (← get).violations.ofNote d.id
  onCache fun c => if c.isFresh d.id d.mtime then c else c.update d.id d.mtime [] current

def validateAll (cancel : Cancellation) : Run Bool := do
  if !(← get).index.ready then startIndex
  batched do
    onViolations (·.clear)
    onCache (·.clear)
    let finished ← validateSchemas cancel (← get).schemaSet.schemas
    if finished then
      onViolations (·.mark)
      each cacheUnmatched (← get).notes.listed
    return finished

def revalidate (id : String) : Run Unit := do
  onViolations (·.removeSchema id)
  onCache fun c => (c.invalidate id).1
  match (← get).schemaSet.find? id with
  | none => pure ()
  | some s => discard (validateSchema s none)

end VaultSchema.Engine
