import VaultSchema.Text.Basic

set_option autoImplicit false

namespace VaultSchema.Folder

def slashes (path : String) : String := Text.replaceChar '\\' '/' path

/-- Without blanks and then without slashes at both ends. -/
def normalize (path : String) : String :=
  Text.trimBy (· == '/') (Text.trim (slashes path))

/-- What precedes the last slash, nothing when there is none. -/
def parent (path : String) : String :=
  let cs := (slashes path).toList
  if cs.contains '/' then
    String.ofList ((cs.reverse.dropWhile (· != '/')).drop 1).reverse
  else ""

def isBelow (path folder : String) : Bool := Text.beginsWith path (folder ++ "/")

end VaultSchema.Folder
