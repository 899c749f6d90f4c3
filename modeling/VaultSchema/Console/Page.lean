import VaultSchema.Console.Grid

set_option autoImplicit false

namespace VaultSchema.Console

def screenWidth : Nat := 1000

structure Page where
  text : String := ""
  failed : Bool := false
  deriving DecidableEq, Repr

namespace Page

def line (p : Page) (s : String) : Page := if p.failed then p else { p with text := p.text ++ s ++ "\n" }

def lines (p : Page) : List String → Page
  | [] => p
  | s :: rest => lines (p.line s) rest

def lines? (p : Page) (found : Option (List String)) : Page :=
  match found with
  | some ls => p.lines ls
  | none => { p with failed := true }

def print (p : Page) (markup : String) : Page :=
  p.lines? ((Markup.text? markup).map fun s => (layOut screenWidth s.toList).map String.ofList)

def grid (p : Page) (g : Grid) : Page := p.lines? g.lines?

end Page
end VaultSchema.Console
