import VaultSchema.Index.TagIndex
import VaultSchema.Query.Reading
import VaultSchema.Schema.SchemaSet

/-! Selection of notes. A query is looked up by way of candidates, which the tag index and the
folders give quickly, and every candidate is then checked. Candidates are tried in order, so
selection faults where an index lists members that have no order. -/

set_option autoImplicit false

namespace VaultSchema

inductive SelectionFault where
  | query (fault : Query.QueryFault)
  | value (fault : ValueFault)
  deriving DecidableEq, Repr

def textOf? : Scalar → Option String
  | .text s => some s
  | _ => none

/-- Notes together with an index of their tags, which may be out of date. -/
structure Catalog where
  notes : NoteStore
  index : TagIndex

namespace Catalog

def resolve (c : Catalog) : Condition → List Scalar
  | .all => c.notes.ids.map .text
  | .tag name => c.index.withTag name
  | .folder path => (c.notes.inFolder path false).map fun d => .text d.id
  | .below path => (c.notes.inFolder path true).map fun d => .text d.id

/-- The smallest of several sets of candidates, looked for up to the first empty one. -/
def smallest (c : Catalog) (best : Option (List Scalar)) : List Condition → List Scalar
  | [] => best.getD []
  | k :: rest =>
    let found := c.resolve k
    let best :=
      match best with
      | none => found
      | some b => if found.length < b.length then found else b
    if best.isEmpty then [] else smallest c (some best) rest

/-- All notes that a query selects are to be found among these, by their paths. -/
def candidates (c : Catalog) (q : Query) : List Scalar :=
  Text.distinct (q.segments.flatMap fun s => c.smallest none s.required)

/-- The notes that a query selects, by path. No note is at a candidate that is no text. -/
def select (c : Catalog) (q : Query) : Except ValueFault (List Document) := do
  let found ← TagIndex.sortMembers (c.candidates q)
  return (found.filterMap textOf?).filterMap fun id => (c.notes.find? id).filter q.holds

end Catalog

namespace PropertyFilter

def bound? (text : Option String) : Option Binary64 :=
  match text with
  | none | some "" => none
  | some s => (Value.text s).timestamp?

/-- A time lies strictly between two bounds. Bounds that are no dates do not count; a time that is
not known lies between no bounds. -/
def within (time : Option Moment) (after before : Option String) : Bool :=
  match bound? after, bound? before with
  | none, none => true
  | low, high =>
    match time with
    | none => false
    | some m =>
      let t := m.timestamp
      low.all (fun b => !t.lessOrEqual b) && high.all fun b => !b.lessOrEqual t

def isSet (name : Option String) : Option String := name.filter (· != "")

def conditionsHold (keys : FoldedKeys) : List PropertyCondition → Except ValueFault Bool
  | [] => .ok true
  | c :: rest =>
    match keys.value? c.property with
    | none => .ok false
    | some v => do if ← c.operator.evaluate v c.value then conditionsHold keys rest else return false

def holds (f : PropertyFilter) (d : Document) : Except ValueFault Bool := do
  if !within d.modified f.modifiedAfter f.modifiedBefore then return false
  if !within d.created f.createdAfter f.createdBefore then return false
  let keys ← FoldedKeys.ofEntries d.entries
  if (isSet f.hasProperty).any (!keys.has ·) then return false
  if (isSet f.notHasProperty).any (keys.has ·) then return false
  conditionsHold keys f.conditions

end PropertyFilter

namespace Schema

def isIdle (s : Schema) : Bool := !s.enabled || Text.isBlankText s.query

def filterHolds (s : Schema) (d : Document) : Except SelectionFault Bool :=
  match s.filter with
  | none => .ok true
  | some f => (f.holds d).mapError .value

def applies (s : Schema) (d : Document) : Except SelectionFault Bool := do
  if s.isIdle then return false
  let q ← (Query.read s.query).mapError .query
  if q.holds d then s.filterHolds d else return false

end Schema

namespace Catalog

def selectFor (c : Catalog) (s : Schema) : Except SelectionFault (List Document) := do
  if s.isIdle then return []
  let q ← (Query.read s.query).mapError .query
  let found ← (c.select q).mapError .value
  found.filterM s.filterHolds

end Catalog
end VaultSchema
