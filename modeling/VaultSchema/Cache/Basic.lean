import VaultSchema.Blob.Writer
import VaultSchema.Cache.Fingerprint
import VaultSchema.Note.Document
import VaultSchema.Schema.Violation

/-! Results of earlier validations: for each note its time of change, the schemas that it was
checked against and the violations found; for each schema its fingerprint. `Cache.analyze` drops
every entry that may no longer hold and tells what has to be validated anew. -/

set_option autoImplicit false

namespace VaultSchema

structure CachedNote where
  mtime : Binary64
  schemas : List String
  stored : List StoredViolation
  deriving Repr

namespace CachedNote

def violations (e : CachedNote) : List Violation := e.stored.filterMap (·.violation?)

def ofViolations (mtime : Binary64) (schemas : List String) (vs : List Violation) : CachedNote :=
  ⟨mtime, schemas, vs.map (·.stored)⟩

@[simp] theorem mtime_ofViolations (mtime : Binary64) (schemas : List String) (vs : List Violation) :
    (ofViolations mtime schemas vs).mtime = mtime := rfl

@[simp] theorem schemas_ofViolations (mtime : Binary64) (schemas : List String) (vs : List Violation) :
    (ofViolations mtime schemas vs).schemas = schemas := rfl

def withViolations (e : CachedNote) (vs : List Violation) : CachedNote := ofViolations e.mtime e.schemas vs

def renamed (e : CachedNote) (id : String) : CachedNote :=
  { e with stored := e.stored.map fun v => { v with document := .text id } }

end CachedNote

structure Cache where
  settings : String
  made : Option String := none
  hashes : Table String String := {}
  notes : Table String CachedNote := {}
  writer : Writer := {}
  deriving Repr

structure Analysis where
  notes : List String := []
  schemas : List String := []
  removed : List String := []
  full : Bool := false
  deriving DecidableEq, Repr

structure CacheStats where
  notes : Nat
  schemas : Nat
  violations : Nat
  deriving DecidableEq, Repr

namespace Cache

def changed (c : Cache) : Cache := { c with writer := c.writer.schedule true }

def clear (c : Cache) : Cache := changed { c with made := some c.settings, hashes := {}, notes := {} }

def currentHashes (set : SchemaSet) : Except ValueFault (Table String String) := do
  let rows ← set.schemas.mapM fun s => do return (s.id, ← s.fingerprint set.registry)
  return rows.foldl (fun t r => t.put r.1 r.2) {}

/-- Schemas whose results no longer hold: new ones, changed ones, and those that are gone. -/
def staleSchemas (old new : Table String String) : List String :=
  (new.rows.filter fun r => old.get? r.1 ≠ some r.2).map Prod.fst ++ old.keys.filter (!new.has ·)

def noteOf? (notes : List Document) (id : String) : Option Document := notes.reverse.find? (·.id == id)

/-- An entry of a note holds on: the note is there, unchanged, and its schemas are not stale. -/
def holdsOn (stale : List String) (notes : List Document) (id : String) (e : CachedNote) : Bool :=
  match noteOf? notes id with
  | none => false
  | some d => d.mtime.equal e.mtime && !e.schemas.any stale.contains

def analyze (c : Cache) (set : SchemaSet) (notes : List Document) : Except ValueFault (Cache × Analysis) :=
  if c.made ≠ some c.settings then .ok (c.clear, { full := true })
  else do
    let hashes ← currentHashes set
    let stale := staleSchemas c.hashes hashes
    let kept := c.notes.keep (holdsOn stale notes)
    let ids := Text.distinct (notes.map (·.id))
    return (changed { c with hashes := hashes, notes := kept },
      { notes := Text.sorted (ids.filter (!kept.has ·))
        schemas := Text.sorted stale
        removed := Text.sorted (c.notes.keys.filter (!ids.contains ·)) })

def update (c : Cache) (id : String) (mtime : Binary64) (schemas : List String)
    (violations : List Violation) : Cache :=
  changed { c with notes := c.notes.put id (.ofViolations mtime (Text.sorted (Text.distinct schemas)) violations) }

def isFresh (c : Cache) (id : String) (mtime : Binary64) : Bool :=
  (c.notes.get? id).any fun e => e.mtime.equal mtime

def schemasOf (c : Cache) (id : String) : List String := ((c.notes.get? id).map (·.schemas)).getD []

def addSchema (c : Cache) (id : String) (mtime : Binary64) (schema : String)
    (violations : List Violation) : Cache :=
  c.update id mtime ((if c.isFresh id mtime then c.schemasOf id else []) ++ [schema]) violations

def updateViolations (c : Cache) (id : String) (violations : List Violation) : Cache :=
  match c.notes.get? id with
  | none => c
  | some e => changed { c with notes := c.notes.put id (e.withViolations violations) }

def remove (c : Cache) (id : String) : Cache :=
  if c.notes.has id then changed { c with notes := c.notes.drop id } else c

def rename (c : Cache) (old new : String) : Cache :=
  match c.notes.get? old with
  | none => c
  | some e => changed { c with notes := (c.notes.drop old).put new (e.renamed new) }

def invalidate (c : Cache) (schema : String) : Cache × List String :=
  let dropped := (c.notes.rows.filter fun r => r.2.schemas.contains schema).map Prod.fst
  if dropped.isEmpty then (c, [])
  else (changed { c with notes := c.notes.keep fun _ e => !e.schemas.contains schema }, dropped)

def updateHash (c : Cache) (s : Schema) (r : Registry) : Except ValueFault Cache := do
  return changed { c with hashes := c.hashes.put s.id (← s.fingerprint r) }

def stored (c : Cache) : List StoredViolation := c.notes.values.flatMap (·.stored)

def violations (c : Cache) : List Violation := c.notes.values.flatMap (·.violations)

def stats (c : Cache) : CacheStats := ⟨c.notes.size, c.hashes.size, c.stored.length⟩

end Cache
end VaultSchema
