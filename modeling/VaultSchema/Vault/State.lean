import VaultSchema.Blob.Store
import VaultSchema.Files.Tree

set_option autoImplicit false

namespace VaultSchema.StateFolder

def read (t : FileTree) (folder name : String) : Except FileFault String := t.read (Path.resolve folder name)

def make (t : FileTree) (folder : String) : Except FileFault FileTree :=
  if t.isFile folder then .error .isFile
  else if (FileTree.ancestors folder).any t.isFile then .error .notInFolder
  else .ok (t.addFolder folder)

def write (t : FileTree) (folder name text : String) (mtime : Binary64) : Except FileFault FileTree := do
  (← make t folder).write (Path.resolve folder name) text mtime

def blob? (t : FileTree) (folder name : String) : Option Blob :=
  match read t folder name with
  | .ok text => some (.text text)
  | .error .absent => none
  | .error .notText => some .garbled
  | .error _ => some .blocked

/-- The blobs of some names. Where a file is in place of the folder, nothing can be read or written. -/
def blobs (t : FileTree) (folder : String) (names : List String) : BlobStore :=
  match make t folder with
  | .error _ => { failing := true }
  | .ok _ =>
    { blobs := ⟨names.filterMap fun n => (blob? t folder n).map fun b => (n, b)⟩ }

def saveAll (t : FileTree) (folder : String) (b : BlobStore) (mtime : Binary64) : FileTree :=
  if b.writes = 0 then t
  else b.blobs.rows.foldl (fun t r =>
    match r.2 with
    | .text text => (write t folder r.1 text mtime).toOption.getD t
    | .garbled | .blocked => t) t

end VaultSchema.StateFolder
