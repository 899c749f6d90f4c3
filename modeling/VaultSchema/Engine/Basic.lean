import VaultSchema.Cache.Stored
import VaultSchema.Index.Stored
import VaultSchema.Query.Selection
import VaultSchema.Report.ViolationStore
import VaultSchema.Schema.Uniqueness
import VaultSchema.Schema.Validation

/-! The engine keeps the violations of a vault's notes current. This module holds its state and the
ways to change a part of it. `Engine.Run` is work on that state which a fault may cut short; what
was done until then stays done. -/

set_option autoImplicit false

namespace VaultSchema

structure EngineOptions where
  checkUnknown : Bool := true
  allowNative : Bool := true
  batchSize : Nat := 50
  deriving DecidableEq, Repr

def EngineOptions.fingerprint (o : EngineOptions) : String :=
  settingsFingerprint o.checkUnknown o.allowNative

structure Engine where
  options : EngineOptions := {}
  notes : NoteStore := {}
  blobs : BlobStore := {}
  index : StoredIndex := {}
  cache : Option Cache := none
  schemaSet : SchemaSet := {}
  violations : ViolationStore := {}

inductive EngineFault where
  | check (fault : CheckFault)
  | value (fault : ValueFault)
  deriving DecidableEq, Repr

/-- After how many further batch boundaries a pass is cancelled, nothing when it never is. -/
abbrev Cancellation := Option Nat

/-- Whether a pass stops at a batch boundary, and what holds at the next one. -/
def Cancellation.boundary : Cancellation → Bool × Cancellation
  | none => (false, none)
  | some 0 => (true, some 0)
  | some (n + 1) => (false, some n)

namespace Engine

/-- An engine for notes. A violation store that is handed over is used if it holds violations; in
place of one without any the engine gets a store of its own. -/
def create (options : EngineOptions) (notes : NoteStore) (blobs : BlobStore) (schemaSet : SchemaSet)
    (cached : Bool) (given : ViolationStore) : Engine where
  options := options
  notes := notes
  blobs := blobs
  cache := if cached then some { settings := options.fingerprint } else none
  schemaSet := schemaSet
  violations := if given.size = 0 then {} else given

abbrev Run (α : Type) := ExceptT EngineFault (StateM Engine) α

def ofCheck {α : Type} (r : Check α) : Run α :=
  match r with
  | .ok a => pure a
  | .error f => throw (.check f)

def ofValue {α : Type} (r : Except ValueFault α) : Run α :=
  match r with
  | .ok a => pure a
  | .error f => throw (.value f)

def onViolations (f : ViolationStore → ViolationStore) : Run Unit :=
  modify fun e => { e with violations := f e.violations }

def onCache (f : Cache → Cache) : Run Unit := modify fun e => { e with cache := e.cache.map f }

def onIndex (f : StoredIndex → StoredIndex) : Run Unit := modify fun e => { e with index := f e.index }

def batched {α : Type} (work : Run α) : Run α := ExceptT.mk fun e =>
  let (r, after) := work.run.run { e with violations := e.violations.beginBatch }
  (r, { after with violations := after.violations.endBatch })

def each {α : Type} (work : α → Run Unit) : List α → Run Unit
  | [] => pure ()
  | a :: rest => do
    work a
    each work rest

def catalog (e : Engine) : Catalog := ⟨e.notes, e.index.index⟩

def orNothing {α : Type} (nothing : α) (r : Except SelectionFault α) : Except ValueFault α :=
  match r with
  | .ok a => .ok a
  | .error (.query _) => .ok nothing
  | .error (.value f) => .error f

def matching (e : Engine) (d : Document) : Except ValueFault (List Schema) :=
  e.schemaSet.schemas.filterM fun s => orNothing false (s.applies d)

def selected (e : Engine) (s : Schema) : Except ValueFault (List Document) :=
  orNothing [] (e.catalog.selectFor s)

def query (e : Engine) (text : String) : Except SelectionFault (List String) := do
  let q ← (Query.read text).mapError .query
  return (← (e.catalog.select q).mapError .value).map (·.id)

def check (e : Engine) (d : Document) (s : Schema) : Check (List Violation) := do
  let found ← e.schemaSet.registry.validate d.id d.frontmatter s e.options.checkUnknown
  return if e.options.allowNative then dropAllowed nativeProperties found else found

def duplicateSchemas (e : Engine) (id : String) : List String :=
  Text.distinct (((e.violations.ofNote id).filter (·.kind == .duplicateValue)).map (·.schema))

end Engine
end VaultSchema
