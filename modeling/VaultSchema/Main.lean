import VaultSchema.Command.Run
import VaultSchema.Files.Listing

/-! The command line. Standard input lists the files and folders of the vault; their texts are read
from the disk, and what the command saved is written back to it. -/

set_option autoImplicit false

namespace VaultSchema

def readText (path : String) : IO (Option String) :=
  try return some (← IO.FS.readFile path) catch _ => return none

def readTree (folder : String) (lines : List String) : IO FileTree :=
  (lines.filterMap (ListedNode.ofLine? folder)).foldlM
    (fun t n => do return t.addListed n (← if n.isFolder then pure none else readText n.path))
    (({} : FileTree).addFolder folder)

def readEnvironment : IO (List (String × String)) :=
  Settings.variableNames.filterMapM fun name => do
    return (← IO.getEnv name).map fun value => (name, value)

def writeText (path text : String) : IO Unit := do
  IO.FS.createDirAll (Path.parent path)
  IO.FS.writeFile path text

end VaultSchema

open VaultSchema in
def main (words : List String) : IO UInt32 := do
  let folder := (← IO.getEnv "PWD").getD "/"
  let tree ← readTree folder (← (← IO.getStdin).lines).toList
  let outcome := Command.run ⟨folder, ← readEnvironment, tree⟩ words
  (FileTree.textsSince tree outcome.tree).forM fun (path, text) => writeText path text
  IO.print outcome.text
  return outcome.exit.toUInt32
