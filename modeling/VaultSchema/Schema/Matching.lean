import VaultSchema.Schema.Registry

/-! Whether a value is of a field's type. Constraints and undeclared keys play no part in it. A
value of a declared type is a mapping in which every group of the type either has a value of one of
its variants' types or is absent without being required. -/

set_option autoImplicit false

namespace VaultSchema

theorem Entries.sizeOf_get?_lt {m : Entries} {name : String} {v : Value}
    (h : Entries.get? name m = some v) : sizeOf v < sizeOf m := by
  obtain ⟨e, found, rfl⟩ := Option.map_eq_some_iff.1 h
  have small := List.sizeOf_lt_of_mem (List.mem_of_find?_eq_some found)
  have part : sizeOf e.2 < sizeOf e := by
    cases e
    simp only [Prod.mk.sizeOf_spec]
    omega
  omega

namespace Registry

def fits (r : Registry) (value : Value) (type : FieldType) : Bool :=
  match type, value with
  | .primitive k, v => k.accepts v
  | .named n, .mapping m =>
    match r.find? n with
    | none => false
    | some t => t.groups.all fun g =>
      match present : Entries.get? g.name m with
      | none => !g.isRequired
      | some v => g.variants.any fun s =>
        have := Entries.sizeOf_get?_lt present
        r.fits v s.type
  | .named _, _ => false
termination_by sizeOf value

def variant? (r : Registry) (value : Value) (variants : List FieldSpec) : Option FieldSpec :=
  variants.find? fun s => r.fits value s.type

/-- Why a mapping is not of a declared type, one reason for each group that is to blame. -/
def misfits (r : Registry) (m : Entries) (t : NamedType) : List String :=
  t.groups.filterMap fun g =>
    match m.get? g.name with
    | none => if g.isRequired then some s!"missing required field \"{g.name}\"" else none
    | some v =>
      if (r.variant? v g.variants).isSome then none
      else some s!"\"{g.name}\" expected {g.expectedTypes}, got {v.kindName}"

theorem fits_primitive (r : Registry) (v : Value) (k : PrimitiveKind) :
    r.fits v (.primitive k) = k.accepts v := by
  rw [fits]

end Registry
end VaultSchema
