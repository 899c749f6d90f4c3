import VaultSchema.Engine.Pass

/-! A session with the engine: the start, which reuses cached results, the changes of notes in
between, and the end. The notes have already changed when the engine is told so. -/

set_option autoImplicit false

namespace VaultSchema.Engine

def reconcileIndex : Run Unit := modify fun e => { e with index := (e.index.reconcile e.notes).1 }

def openCache (c : Cache) : Run Analysis := do
  let (loaded, _) ← ofValue (c.load (← get).blobs)
  modify fun e => { e with cache := some loaded }
  let e ← get
  let (analyzed, analysis) ← ofValue (loaded.analyze e.schemaSet e.notes.listed)
  modify fun e => { e with cache := some analyzed }
  return analysis

/-- Validates stale schemas. A schema that is gone loses its violations, and one whose pass is
cancelled stays as far as it came. -/
def revalidateStale (cancel : Cancellation) : List String → Run Unit
  | [] => pure ()
  | id :: rest => do
    onViolations (·.removeSchema id)
    match (← get).schemaSet.find? id with
    | none => revalidateStale cancel rest
    | some s =>
      let (_, cancel) ← validateSchema s cancel
      revalidateStale cancel rest

def validateById (id : String) : Run Unit := do
  match (← get).notes.find? id with
  | none => pure ()
  | some d => discard (validateFully d)

/-- Brings the violations up to date where the cache does not hold on. -/
def resume (a : Analysis) (cancel : Cancellation) : Run Unit := batched do
  onViolations (·.clear)
  let cached := ((← get).cache.map (·.violations)).getD []
  onViolations (·.add cached)
  each (fun id => onViolations (·.removeNote id)) a.notes
  revalidateStale cancel a.schemas
  each validateById a.notes
  if !a.notes.isEmpty || !a.removed.isEmpty then
    each rescan ((← get).schemaSet.schemas.filter fun s => !a.schemas.contains s.id)
  onViolations (·.mark)

def startup (cancel : Cancellation) : Run Unit := do
  if (← get).index.ready then reconcileIndex else startIndex
  match (← get).cache with
  | none => discard (validateAll cancel)
  | some c =>
    let analysis ← openCache c
    if analysis.full then discard (validateAll cancel) else resume analysis cancel

def shutdown : Run Unit := do
  let e ← get
  let saved := e.index.flush e.blobs
  set { e with index := saved.value, blobs := saved.blobs }
  match saved.fault with
  | none => pure ()
  | some f => throw (.value f)
  let e ← get
  match e.cache with
  | none => pure ()
  | some c =>
    let saved := c.flush e.blobs
    set { e with cache := some saved.value, blobs := saved.blobs }
    match saved.fault with
    | none => pure ()
    | some f => throw (.value f)

def noteChanged (d : Document) : Run Unit := do
  let duplicates := (← get).duplicateSchemas d.id
  onIndex (·.update d)
  let applying ← validateFully d
  each rescan ((← get).schemaSet.schemas.filter fun s =>
    s.hasUniqueFields && ((applying.map (·.id)).contains s.id || duplicates.contains s.id))

def noteRenamed (old : String) (d : Document) : Run Unit := do
  onIndex (·.rename old d.id)
  onViolations (·.rename old d.id)
  onCache (·.rename old d.id)
  noteChanged d

def noteDeleted (id : String) : Run Unit := do
  let duplicates := (← get).duplicateSchemas id
  onIndex (·.remove id)
  onViolations (·.removeNote id)
  onCache (·.remove id)
  each rescan (duplicates.filterMap (← get).schemaSet.find?)

end VaultSchema.Engine
