import VaultSchema.Table

/-! Named texts that outlive a run. Reading and writing may fail, and then change nothing. -/

set_option autoImplicit false

namespace VaultSchema

inductive Blob where
  | text (s : String)
  /-- Bytes that are no text. -/
  | garbled
  /-- Something that can be neither read nor replaced. -/
  | blocked
  deriving DecidableEq, Repr

inductive BlobRead where
  | absent
  | failed
  | garbled
  | found (text : String)
  deriving DecidableEq, Repr

structure BlobStore where
  blobs : Table String Blob := {}
  failing : Bool := false
  writes : Nat := 0
  deriving DecidableEq, Repr

namespace BlobStore

def read (b : BlobStore) (name : String) : BlobRead :=
  if b.failing then .failed
  else
    match b.blobs.get? name with
    | some (.text s) => .found s
    | some .garbled => .garbled
    | some .blocked => .failed
    | none => .absent

def write? (b : BlobStore) (name text : String) : Option BlobStore :=
  if b.failing || b.blobs.get? name = some .blocked then none
  else some { b with blobs := b.blobs.put name (.text text), writes := b.writes + 1 }

theorem read_write? {b c : BlobStore} {name text : String} (h : b.write? name text = some c) :
    c.read name = .found text := by
  unfold write? at h
  split at h
  · simp at h
  · rename_i works
    simp only [Option.some.injEq] at h
    subst h
    simp_all [read, Table.get?_put]

end BlobStore
end VaultSchema
