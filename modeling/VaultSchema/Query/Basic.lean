import VaultSchema.Note.Document

set_option autoImplicit false

namespace VaultSchema

inductive Condition where
  | all
  /-- Notes directly in a folder. -/
  | folder (path : String)
  | below (path : String)
  | tag (name : String)
  deriving DecidableEq, Repr

structure Segment where
  required : List Condition
  excluded : List Condition := []
  deriving DecidableEq, Repr

structure Query where
  source : String
  segments : List Segment
  deriving DecidableEq, Repr

/-- A tag without blanks around it and number signs in front. -/
def bareTag (tag : String) : String := Text.trimStartBy (· == '#') (Text.trim tag)

/-- A tag is a name, or is nested below it. -/
def tagMatches (tag name : String) : Bool :=
  bareTag tag == bareTag name || Folder.isBelow (bareTag tag) (bareTag name)

def hasTag (tags : List String) (name : String) : Bool := tags.any fun t => tagMatches t name

namespace Condition

def holds (d : Document) : Condition → Bool
  | .all => true
  | .tag name => hasTag d.tags name
  | .folder path => d.folder == path
  | .below path => path == "" || Folder.isBelow d.id path

def describe : Condition → String
  | .all => "all notes"
  | .tag name => s!"tagged #{name}"
  | .folder path => if path == "" then "in the vault root" else s!"in {path}/"
  | .below path => if path == "" then "anywhere in the vault" else s!"in {path}/ (recursive)"

end Condition

namespace Segment

/-- A segment that requires nothing selects nothing. -/
def holds (s : Segment) (d : Document) : Bool :=
  !s.required.isEmpty && s.required.all (·.holds d) && !s.excluded.any (·.holds d)

def describe (s : Segment) : String :=
  let kept := " and ".intercalate (s.required.map (·.describe))
  if s.excluded.isEmpty then kept
  else kept ++ ", excluding " ++ " or ".intercalate (s.excluded.map (·.describe))

end Segment

namespace Query

def holds (q : Query) (d : Document) : Bool := q.segments.any (·.holds d)

def describe (q : Query) : String :=
  if q.segments.isEmpty then "matches nothing" else " or ".intercalate (q.segments.map (·.describe))

end Query
end VaultSchema
