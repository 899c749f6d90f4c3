import VaultSchema.Cache.Basic
import VaultSchema.Json.Reading
import VaultSchema.Number.LooseReading

/-! The cache as it is kept in a blob. A blob is read as a whole or not at all. Times of change may
be stored as any number, truth value or text of a number; an integer beyond all doubles is a fault.
-/

set_option autoImplicit false

namespace VaultSchema

inductive StoredFault where
  | malformed
  | value (fault : ValueFault)
  deriving DecidableEq, Repr

namespace CachedNote

def toValue (e : CachedNote) : Value :=
  .mapping [(.text "mtime", .float e.mtime), (.text "schema_ids", .list (e.schemas.map .text)),
    (.text "violations", .list (e.stored.map fun v => .mapping v.toEntries))]

def readTime : Value → Except StoredFault Binary64
  | .float x => .ok x
  | .bool b => .ok (if b then .one else .zero)
  | .int i => ((Binary64.ofInt? i).map .ok).getD (.error (.value .numberTooLarge))
  | .text s => ((Decimal.readLoose? s).map .ok).getD (.error .malformed)
  | _ => .error .malformed

/-- The members of a sequence, the characters of a text, or the keys of a mapping. -/
def readMembers : Value → Except StoredFault (List Value)
  | .sequence _ items => .ok items
  | .text s => .ok (s.toList.map fun c => .text c.toString)
  | .mapping m => .ok (m.map fun e => .scalar e.1)
  | _ => .error .malformed

def readViolation : Value → Except StoredFault StoredViolation
  | .mapping m => (StoredViolation.ofEntries m).mapError fun _ => .malformed
  | _ => .error .malformed

def ofValue : Value → Except StoredFault CachedNote
  | .mapping m => do
    let time ← ((Entries.get? "mtime" m).map readTime).getD (.error .malformed)
    let schemas ← readMembers ((Entries.get? "schema_ids" m).getD (.list []))
    let names ← schemas.mapM fun v => v.spelling.mapError .value
    let violations ← readMembers ((Entries.get? "violations" m).getD (.list []))
    return ⟨time, names, ← violations.mapM readViolation⟩
  | _ => .error .malformed

end CachedNote

namespace Cache

def version : Nat := 1

def blobName : String := "validation-cache.json"

def toValue (c : Cache) : Value :=
  .mapping [(.text "version", .int version), (.text "settings_hash", .text c.settings),
    (.text "schema_hashes", .mapping (c.hashes.rows.map fun r => (.text r.1, .text r.2))),
    (.text "documents", .mapping (c.notes.rows.map fun r => (.text r.1, r.2.toValue)))]

def toText (c : Cache) : Except ValueFault String := Json.write .spaced c.toValue

/-- A version is compared as a number. -/
def isCurrent (m : Entries) : Bool :=
  match Entries.get? "version" m with
  | some (.scalar s) => s.sameKey (.int version)
  | _ => false

def section? (key : String) (m : Entries) : Except StoredFault Entries :=
  match Entries.get? key m with
  | none => .ok []
  | some (.mapping s) => .ok s
  | some _ => .error .malformed

def readRow {α : Type} (read : Value → Except StoredFault α) (e : Scalar × Value) :
    Except StoredFault (String × α) := do
  return (← e.1.spelling.mapError .value, ← read e.2)

def takeOver (c : Cache) : Value → Except StoredFault Cache
  | .mapping m => do
    if !isCurrent m then throw .malformed
    let notes ← (← section? "documents" m).mapM (readRow CachedNote.ofValue)
    let hashes ← (← section? "schema_hashes" m).mapM (readRow fun v => v.spelling.mapError .value)
    let made :=
      match Entries.get? "settings_hash" m with
      | some (.text s) => some s
      | _ => none
    return { c with made := made, hashes := ⟨hashes⟩, notes := ⟨notes⟩ }
  | _ => .error .malformed

def load (c : Cache) (b : BlobStore) : Except ValueFault (Cache × Bool) :=
  match b.read blobName with
  | .absent | .failed => .ok (c, false)
  | .garbled => .error .notText
  | .found text =>
    match ((Json.read? text).map c.takeOver).getD (.error .malformed) with
    | .ok loaded => .ok (loaded, true)
    | .error .malformed => .ok (c, false)
    | .error (.value .numberTooLarge) => .error .numberTooLarge
    | .error (.value _) => .ok (c, false)

def withWriter (c : Cache) (w : Writer) : Cache := { c with writer := w }

def save (c : Cache) (b : BlobStore) : Saved Cache :=
  (c.writer.save b blobName c.toText).map c.withWriter

def flush (c : Cache) (b : BlobStore) : Saved Cache :=
  (c.writer.flush b blobName c.toText).map c.withWriter

def expire (c : Cache) (b : BlobStore) : Saved Cache :=
  (c.writer.expire b blobName c.toText).map c.withWriter

end Cache
end VaultSchema
