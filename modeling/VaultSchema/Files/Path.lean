import VaultSchema.Text.Basic

/-! Paths in normal form: no empty and no dot parts and no slash at the end, the empty path being a
dot. Two slashes in front differ from one; parts that go up stay. -/

set_option autoImplicit false

namespace VaultSchema.Path

def root (path : String) : String :=
  match (path.toList.takeWhile (· == '/')).length with
  | 0 => ""
  | 2 => "//"
  | _ => "/"

def parts (path : String) : List String :=
  ((Text.splitList (· == '/') path.toList).map String.ofList).filter fun p => p != "" && p != "."

def ofParts (root : String) (parts : List String) : String :=
  let path := root ++ "/".intercalate parts
  if path.isEmpty then "." else path

def normalize (path : String) : String := ofParts (root path) (parts path)

def isAbsolute (path : String) : Bool := path.toList.head? == some '/'

def join (base path : String) : String :=
  if isAbsolute path then normalize path else ofParts (root base) (parts base ++ parts path)

/-- The parts that are left when each step up takes back a step down. -/
def resolveParts (done : List String) : List String → List String
  | [] => done.reverse
  | ".." :: rest => resolveParts (done.drop 1) rest
  | p :: rest => resolveParts (p :: done) rest

def resolve (folder path : String) : String := ofParts "/" (resolveParts [] (parts (join folder path)))

def parent (path : String) : String := ofParts (root path) (parts path).dropLast

def name (path : String) : String := ((parts path).getLast?).getD ""

/-- The end of a name from its last dot on, unless the name begins or ends there. -/
def suffix (path : String) : String :=
  let cs := (name path).toList
  let ending := (cs.reverse.takeWhile (· != '.')).reverse
  if cs.contains '.' && !ending.isEmpty && ending.length + 1 < cs.length then
    String.ofList ('.' :: ending)
  else ""

end VaultSchema.Path
