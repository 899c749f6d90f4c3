import VaultSchema.Files.Path
import VaultSchema.Number.Binary64
import VaultSchema.Table

/-! A tree of files and folders. Nodes are known by resolved paths, and every node but the root lies
in a folder. Files are texts with a time of change, or bytes that are no text. -/

set_option autoImplicit false

namespace VaultSchema

inductive FileNode where
  | folder
  | file (text : Option String) (mtime : Binary64)
  deriving DecidableEq, Repr

inductive FileFault where
  | absent
  | isFolder
  | isFile
  /-- A part of the path that should be a folder is a file. -/
  | notInFolder
  | notText
  | writeFailed
  deriving DecidableEq, Repr

structure FileTree where
  nodes : Table String FileNode := {}
  deriving DecidableEq, Repr

namespace FileTree

/-- A line ends at a carriage return, a line feed, or both. -/
def unifyLineEnds : List Char → List Char
  | [] => []
  | '\r' :: '\n' :: rest => '\n' :: unifyLineEnds rest
  | '\r' :: rest => '\n' :: unifyLineEnds rest
  | c :: rest => c :: unifyLineEnds rest

def isFolder (t : FileTree) (path : String) : Bool := path == "/" || t.nodes.get? path == some .folder

def isFile (t : FileTree) (path : String) : Bool :=
  match t.nodes.get? path with
  | some (.file _ _) => true
  | _ => false

def exists? (t : FileTree) (path : String) : Bool := t.isFolder path || t.isFile path

def ancestors (path : String) : List String :=
  let parts := Path.parts path
  (List.range (parts.length - 1)).map fun n => Path.ofParts "/" (parts.take (n + 1))

def read (t : FileTree) (path : String) : Except FileFault String :=
  match t.nodes.get? path with
  | some (.file (some text) _) => .ok (String.ofList (unifyLineEnds text.toList))
  | some (.file none _) => .error .notText
  | some .folder => .error .isFolder
  | none => .error (if (ancestors path).any t.isFile then .notInFolder else .absent)

def mtime? (t : FileTree) (path : String) : Option Binary64 :=
  match t.nodes.get? path with
  | some (.file _ m) => some m
  | _ => none

def addFolder (t : FileTree) (path : String) : FileTree :=
  ⟨(ancestors path ++ [path]).foldl (fun nodes p => if nodes.has p then nodes else nodes.put p .folder)
    t.nodes⟩

def addFile (t : FileTree) (path : String) (text : Option String) (mtime : Binary64) : FileTree :=
  ⟨(t.addFolder (Path.parent path)).nodes.put path (.file text mtime)⟩

def isWithin (folder path : String) : Bool :=
  path == folder || Text.beginsWith path (if folder == "/" then folder else folder ++ "/")

def remove (t : FileTree) (path : String) : FileTree := ⟨t.nodes.keep fun p _ => !isWithin path p⟩

def move (t : FileTree) (old new : String) : FileTree :=
  let moved := (t.nodes.keep fun p _ => isWithin old p).rows.map fun r =>
    (new ++ String.ofList (r.1.toList.drop old.length), r.2)
  let rest := ((t.remove old).remove new).addFolder (Path.parent new)
  ⟨moved.foldl (fun nodes r => nodes.put r.1 r.2) rest.nodes⟩

def below (t : FileTree) (folder : String) : List String :=
  (t.nodes.keys.filter fun p => p != folder && isWithin folder p).map fun p =>
    String.ofList (p.toList.drop (if folder == "/" then 1 else folder.length + 1))

def names? (t : FileTree) (folder : String) : Option (List String) :=
  if t.isFolder folder then
    some (Text.sorted ((t.below folder).filter fun p => !p.toList.contains '/'))
  else none

def write (t : FileTree) (path text : String) (mtime : Binary64) : Except FileFault FileTree :=
  if !t.isFolder (Path.parent path) || t.isFolder path then .error .writeFailed
  else .ok ⟨t.nodes.put path (.file (some text) mtime)⟩

end FileTree
end VaultSchema
