import VaultSchema.Note.Folder
import VaultSchema.Note.Tags
import VaultSchema.Calendar.Moment

set_option autoImplicit false

namespace VaultSchema

structure Document where
  id : String
  frontmatter : Option Entries
  tags : List String
  created : Option Moment
  modified : Option Moment
  deriving Repr

namespace Document

def entries (d : Document) : Entries := d.frontmatter.getD []

/-- Paths get forward slashes, and tags are cleaned. -/
def make (id : String) (frontmatter : Option Entries) (tags : List String)
    (created modified : Option Moment) : Document :=
  ⟨Folder.slashes id, frontmatter, (tags.map Tags.clean).filter (· != ""), created, modified⟩

def ofContent (id : String) (frontmatter : Option Entries) (body : String)
    (created modified : Option Moment) : Except ValueFault Document := do
  return make id frontmatter (← Tags.ofNote (frontmatter.getD []) body) created modified

def folder (d : Document) : String := Folder.parent d.id

def mtime (d : Document) : Binary64 := (d.modified.map Moment.timestamp).getD Binary64.zero

def isIn (d : Document) (folder : String) (recursive : Bool) : Bool :=
  let folder := Folder.normalize folder
  if recursive then folder == "" || Folder.isBelow d.id folder else d.folder == folder

end Document
end VaultSchema
