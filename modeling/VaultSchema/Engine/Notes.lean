import VaultSchema.Engine.Basic

set_option autoImplicit false

namespace VaultSchema.Engine

def validateNote (d : Document) (s : Schema) : Run (List Violation) := do
  let found ← ofCheck ((← get).check d s)
  onViolations fun v => v.setSchema d.id s.id found
  let current := (← get).violations.ofNote d.id
  onCache fun c => c.addSchema d.id d.mtime s.id current
  return found

def recordResult (d : Document) (s : Schema) : Run Unit := do
  let found ← ofCheck ((← get).check d s)
  onViolations fun v => v.setSchema d.id s.id found

def validateFully (d : Document) : Run (List Schema) := do
  let applying ← ofValue ((← get).matching d)
  let names := applying.map (·.id)
  batched do
    let before := Text.distinct (((← get).violations.ofNote d.id).map (·.schema))
    each (fun schema => onViolations fun v => v.removeNoteSchema d.id schema)
      (before.filter (!names.contains ·))
    each (recordResult d) applying
  let current := (← get).violations.ofNote d.id
  onCache fun c => c.update d.id d.mtime names current
  return applying

def violationsNow (d : Document) : Run (List Violation) := do
  discard (validateFully d)
  return (← get).violations.ofNote d.id

end VaultSchema.Engine
