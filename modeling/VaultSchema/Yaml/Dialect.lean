/-! Two ways of reading YAML 1.1 that differ in marginal texts: how tabs and byte order marks count,
where a plain text ends inside brackets, and which marks a tag may hold. -/

set_option autoImplicit false

namespace VaultSchema.Yaml

structure Dialect where
  /-- Tabs separate tokens and end words as blanks do, where no key may begin. -/
  tabsSeparate : Bool
  /-- Any line may begin with a byte order mark, which takes a column, rather than only the first one. -/
  marksBeginLines : Bool
  /-- Inside brackets a question mark does not end a plain text. -/
  questionInPlain : Bool
  /-- Inside brackets a colon right before a comma or a bracket is refused. -/
  colonNeedsBlank : Bool
  /-- A comma or a square bracket ends a tag. -/
  tagEndsAtBracket : Bool
  /-- Versions other than 1.1 and 1.2 are refused, rather than those other than 1. -/
  knownVersionsOnly : Bool
  deriving DecidableEq, Repr

namespace Dialect

def isBlank (d : Dialect) (c : Char) : Bool := c == ' ' || (d.tabsSeparate && c == '\t')

def note : Dialect := ⟨true, true, true, true, true, true⟩

def definitions : Dialect := ⟨false, false, false, false, false, false⟩

end Dialect
end VaultSchema.Yaml
