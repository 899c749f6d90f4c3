import VaultSchema.Schema.Field

/-! Declared types and the look-up of their names. Types may refer to each other in circles; the
types that fields refer to, directly or through other types, are gathered by a search that enters
every type once. -/

set_option autoImplicit false

namespace VaultSchema

structure NamedType where
  name : String
  fields : List FieldSpec
  deriving DecidableEq, Repr

namespace NamedType

def groups (t : NamedType) : List FieldGroup := FieldGroup.ofFields t.fields

def declares (t : NamedType) (name : String) : Bool := t.fields.any (·.name == name)

end NamedType

structure Registry where
  types : List NamedType := []
  deriving DecidableEq, Repr

namespace Registry

def find? (r : Registry) (name : String) : Option NamedType := r.types.find? (·.name == name)

def has (r : Registry) (name : String) : Bool := (r.find? name).isSome

def resolve? (r : Registry) : FieldType → Option NamedType
  | .primitive _ => none
  | .named n => r.find? n

/-- The first reference to a type that is not declared, with the field that makes it. -/
def undefined? (r : Registry) (fields : List FieldSpec) : Option (FieldSpec × String) :=
  fields.findSome? fun f =>
    (f.types.filterMap FieldType.reference?).findSome? fun n => if r.has n then none else some (f, n)

def unfound (r : Registry) (found : List NamedType) : List NamedType :=
  r.types.filter fun t => !(found.any (·.name == t.name))

theorem mem_of_resolve? {r : Registry} {type : FieldType} {t : NamedType}
    (h : r.resolve? type = some t) : t ∈ r.types := by
  cases type with
  | primitive _ => simp [resolve?] at h
  | named n => exact List.mem_of_find?_eq_some h

theorem length_unfound_lt {r : Registry} {found : List NamedType} {t : NamedType}
    (mem : t ∈ r.types) (new : (found.any (·.name == t.name)) = false) :
    (r.unfound (found ++ [t])).length < (r.unfound found).length := by
  have sub : r.unfound (found ++ [t]) = (r.unfound found).filter fun u => !(t.name == u.name) := by
    simp only [unfound, List.filter_filter]
    congr 1
    funext u
    simp [List.any_append, Bool.and_comm]
  rw [sub, List.length_filter_lt_length_iff_exists]
  exact ⟨t, by simp only [unfound, List.mem_filter]; exact ⟨mem, by simp [new]⟩, by simp⟩

/-- The types behind pending references, each entered before what comes after its reference. -/
def search (r : Registry) (found : List NamedType) : List FieldType → List NamedType
  | [] => found
  | type :: pending =>
    match h : r.resolve? type with
    | none => search r found pending
    | some t =>
      if new : found.any (·.name == t.name) then search r found pending
      else
        have fewer := length_unfound_lt (mem_of_resolve? h) (by simpa using new)
        search r (found ++ [t]) (t.fields.flatMap FieldSpec.types ++ pending)
termination_by pending => ((r.unfound found).length, pending.length)
decreasing_by
  · exact Prod.Lex.right _ (by simp)
  · exact Prod.Lex.right _ (by simp)
  · exact Prod.Lex.left _ _ fewer

def referencedTypes (r : Registry) (fields : List FieldSpec) : List NamedType :=
  r.search [] (fields.flatMap FieldSpec.types)

end Registry
end VaultSchema
