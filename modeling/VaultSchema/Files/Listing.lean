import VaultSchema.Files.Tree
import VaultSchema.Number.LooseReading

/-! Listings of what is on a disk. A line has a time of change in seconds, a blank, and a path,
which ends with a slash where it is the path of a folder. A listing of what was written since has
paths and texts. -/

set_option autoImplicit false

namespace VaultSchema

structure ListedNode where
  path : String
  isFolder : Bool
  mtime : Binary64
  deriving DecidableEq, Repr

namespace ListedNode

def ofLine? (folder line : String) : Option ListedNode := do
  let time := line.toList.takeWhile (· != ' ')
  let path := line.toList.drop (time.length + 1)
  let mtime ← Decimal.readLoose? (String.ofList time)
  if path.isEmpty then none
  else return ⟨Path.resolve folder (String.ofList path), path.getLast? == some '/', mtime⟩

end ListedNode

namespace FileTree

/-- A tree with a node more. A file without a text has bytes that are no text. -/
def addListed (t : FileTree) (n : ListedNode) (text : Option String) : FileTree :=
  if n.isFolder then t.addFolder n.path else t.addFile n.path text n.mtime

def text? (t : FileTree) (path : String) : Option String :=
  match t.nodes.get? path with
  | some (.file text _) => text
  | _ => none

def textsSince (old new : FileTree) : List (String × String) :=
  new.nodes.keys.filterMap fun path => do
    let text ← new.text? path
    if old.text? path = some text then none else return (path, text)

end FileTree
end VaultSchema
