import VaultSchema.Proofs.Schema.Reach

/-! The search for declared types as a walk: a type that is new is entered, and what its own fields
refer to is walked through before the references behind it. -/

set_option autoImplicit false

namespace VaultSchema.Registry

/-- What a walk through references finds, beside what was found before. -/
inductive Walks (r : Registry) : List NamedType → List FieldType → List NamedType → Prop where
  | ended (found : List NamedType) : Walks r found [] found
  | passed {found result : List NamedType} {type : FieldType} {pending : List FieldType}
      (known : ∀ t, r.resolve? type = some t → t.name ∈ found.map (·.name))
      (later : Walks r found pending result) : Walks r found (type :: pending) result
  | entered {found inner result : List NamedType} {type : FieldType} {pending : List FieldType} {t : NamedType}
      (declared : r.resolve? type = some t) (new : t.name ∉ found.map (·.name))
      (own : Walks r (found ++ [t]) (FieldSpec.mentioned t.fields) inner)
      (later : Walks r inner pending result) : Walks r found (type :: pending) result

namespace Walks

variable {r : Registry} {found result other : List NamedType} {pending types : List FieldType}

theorem split {front rest : List FieldType} (h : r.Walks found (front ++ rest) result) :
    ∃ mid, r.Walks found front mid ∧ r.Walks mid rest result := by
  induction front generalizing found with
  | nil => exact ⟨found, .ended found, h⟩
  | cons type front ih =>
    cases h with
    | passed known later =>
      obtain ⟨mid, first, rest⟩ := ih later
      exact ⟨mid, .passed known first, rest⟩
    | entered declared new own later =>
      obtain ⟨mid, first, rest⟩ := ih later
      exact ⟨mid, .entered declared new own first, rest⟩

theorem unique (h : r.Walks found pending result) (same : r.Walks found pending other) : result = other := by
  induction h generalizing other with
  | ended found =>
    cases same
    rfl
  | passed known _ ih =>
    cases same with
    | passed _ later => exact ih later
    | entered declared new => exact (new (known _ declared)).elim
  | entered declared new _ _ ihOwn ihLater =>
    cases same with
    | passed known => exact (new (known _ declared)).elim
    | entered declared' _ own later =>
      obtain rfl := Option.some.inj (declared.symm.trans declared')
      obtain rfl := ihOwn own
      exact ihLater later

theorem nodup (h : r.Walks found pending result) (once : (found.map (·.name)).Nodup) :
    (result.map (·.name)).Nodup := by
  induction h with
  | ended => exact once
  | passed _ _ ih => exact ih once
  | entered _ new _ _ ihOwn ihLater =>
    refine ihLater (ihOwn ?_)
    rw [List.map_append, List.nodup_append]
    exact ⟨once, by simp, by simpa using fun t mem same => new (List.mem_map.2 ⟨t, mem, same⟩)⟩

theorem reached (h : r.Walks found pending result) (start : ∀ type ∈ pending, r.Reaches types type) :
    ∀ t ∈ result, t ∈ found ∨ ∃ type, r.Reaches types type ∧ r.resolve? type = some t := by
  induction h with
  | ended => exact fun t mem => Or.inl mem
  | passed _ _ ih => exact ih fun type mem => start type (List.mem_cons_of_mem _ mem)
  | entered declared new own later ihOwn ihLater =>
    have here := start _ List.mem_cons_self
    intro u mem
    rcases ihLater (fun type mem => start type (List.mem_cons_of_mem _ mem)) u mem with mem | later
    · rcases ihOwn (fun type mem => here.through declared mem) u mem with mem | inner
      · rcases List.mem_append.1 mem with mem | this
        · exact Or.inl mem
        · obtain rfl := List.mem_singleton.1 this
          exact Or.inr ⟨_, here, declared⟩
      · exact Or.inr inner
    · exact Or.inr later

end Walks

theorem any_name_iff {found : List NamedType} {name : String} :
    found.any (·.name == name) = true ↔ name ∈ found.map (·.name) := by
  simp [List.any_eq_true, List.mem_map]

/-- The search is the walk: putting a type's own references in front of the rest comes to the same. -/
theorem walks_search (r : Registry) (found : List NamedType) (pending : List FieldType) :
    r.Walks found pending (r.search found pending) := by
  induction found, pending using search.induct r with
  | case1 found =>
    rw [search]
    exact .ended found
  | case2 found type pending undeclared ih =>
    rw [search_cons, undeclared]
    exact .passed (by simp [undeclared]) ih
  | case3 found type pending t declared old ih =>
    rw [search_cons, declared]
    dsimp only
    rw [if_pos old]
    refine .passed (fun u same => ?_) ih
    obtain rfl := Option.some.inj (declared.symm.trans same)
    exact any_name_iff.1 old
  | case4 found type pending t declared new fewer ih =>
    rw [search_cons, declared]
    dsimp only
    rw [if_neg new]
    -- The search takes the type's own references and the rest as one list, the walk one after the other.
    obtain ⟨inner, own, later⟩ := ih.split
    exact .entered declared (fun mem => new (any_name_iff.2 mem)) own later

/-- For all declared types, whether they refer to each other in circles or not, and for all fields: the walk
from the fields ends, with the types referred to as its one result; each of them is there once; and they are
just the types that are declared behind a reference that is reached, however many types lie between. -/
theorem referencedTypes_reached (r : Registry) (fields : List FieldSpec) :
    (∀ result, r.Walks [] (FieldSpec.mentioned fields) result ↔ result = r.referencedTypes fields) ∧
    ((r.referencedTypes fields).map (·.name)).Nodup ∧
    ∀ t, t ∈ r.referencedTypes fields ↔
      ∃ type, r.Reaches (FieldSpec.mentioned fields) type ∧ r.resolve? type = some t := by
  have walk : r.Walks [] (FieldSpec.mentioned fields) (r.referencedTypes fields) := r.walks_search _ _
  refine ⟨fun result => ⟨fun other => other.unique walk, ?_⟩, walk.nodup List.nodup_nil, fun t => ⟨?_, ?_⟩⟩
  · rintro rfl
    exact walk
  · intro mem
    exact (walk.reached (fun type mem => .mentioned mem) t mem).resolve_left List.not_mem_nil
  · rintro ⟨type, reaches, declared⟩
    exact mem_referencedTypes reaches declared

/-- Two types that refer to each other, and one of them to itself, are found once each. A type that nothing
refers to is not found. -/
example :
    let author : NamedType := ⟨"author",
      [{ name := "works", type := .primitive .array, elementType := some (.named "book") }]⟩
    let book : NamedType := ⟨"book",
      [{ name := "sequel", type := .named "book" }, { name := "by", type := .named "author" }]⟩
    (⟨[⟨"shelf", []⟩, book, author]⟩ : Registry).referencedTypes [{ name := "by", type := .named "author" }] =
      [author, book] := by cbv

end VaultSchema.Registry
