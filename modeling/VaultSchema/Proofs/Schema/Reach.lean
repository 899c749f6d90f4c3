import Mathlib.Data.List.Find
import VaultSchema.Proofs.Schema.Findings

/-! The types that validation can meet. Every type that the walk through a value looks up is reached
from the types that the schema's fields mention, and the search finds just these. So registries that
agree on the reached types find the same in every note. -/

set_option autoImplicit false

namespace VaultSchema

def FieldSpec.mentioned (fields : List FieldSpec) : List FieldType := fields.flatMap FieldSpec.types

def FoldedKeys.Alike (a b : FoldedKeys) : Prop := ∀ name, a.value? name = b.value? name

theorem FieldGroup.mem_fields {fields : List FieldSpec} {g : FieldGroup} (group : g ∈ FieldGroup.ofFields fields)
    {s : FieldSpec} (variant : s ∈ g.variants) : s ∈ fields := by
  obtain ⟨name, _, rfl⟩ := List.mem_map.1 group
  exact List.mem_of_mem_filter variant

namespace Registry

/-- A type is mentioned by some fields, or by a declared type that is reached from them. -/
inductive Reaches (r : Registry) (types : List FieldType) : FieldType → Prop where
  | mentioned {type : FieldType} (mem : type ∈ types) : Reaches r types type
  | through {type inner : FieldType} {t : NamedType} (outer : Reaches r types type)
      (declared : r.resolve? type = some t) (mem : inner ∈ FieldSpec.mentioned t.fields) :
      Reaches r types inner

theorem find?_of_resolve? {r : Registry} {type : FieldType} {t : NamedType} (declared : r.resolve? type = some t) :
    type = .named t.name ∧ r.find? t.name = some t := by
  cases type with
  | primitive k => cases declared
  | named n =>
    obtain rfl : t.name = n := by simpa using List.find?_some declared
    exact ⟨rfl, declared⟩

/-- What a search gathers for pending references, beside what it had found. -/
structure Gathers (r : Registry) (found : List NamedType) (pending : List FieldType)
    (result : List NamedType) : Prop where
  known : ∀ t ∈ result, r.find? t.name = some t
  keeps : ∀ t ∈ found, t ∈ result
  meets : ∀ type ∈ pending, ∀ t, r.resolve? type = some t → t ∈ result
  closed : ∀ t ∈ result, t ∈ found ∨
    ∀ type ∈ FieldSpec.mentioned t.fields, ∀ u, r.resolve? type = some u → u ∈ result

theorem search_cons (r : Registry) (found : List NamedType) (type : FieldType) (pending : List FieldType) :
    r.search found (type :: pending) =
      match r.resolve? type with
      | none => r.search found pending
      | some t =>
        if found.any (·.name == t.name) then r.search found pending
        else r.search (found ++ [t]) (FieldSpec.mentioned t.fields ++ pending) := by
  conv => lhs; rw [search]
  split
  · rename_i undeclared
    simp only [undeclared]
  · rename_i t declared
    simp only [declared]
    split <;> rfl

theorem gathers_search {r : Registry} {found : List NamedType} {pending : List FieldType}
    (known : ∀ t ∈ found, r.find? t.name = some t) : Gathers r found pending (r.search found pending) := by
  induction found, pending using search.induct r with
  | case1 found =>
    rw [search]
    exact ⟨known, fun _ mem => mem, by simp, fun _ mem => Or.inl mem⟩
  | case2 found type pending undeclared ih =>
    rw [search_cons, undeclared]
    obtain ⟨known, keeps, meets, closed⟩ := ih known
    refine ⟨known, keeps, ?_, closed⟩
    intro other mem t declared
    rcases List.mem_cons.1 mem with rfl | mem
    · rw [undeclared] at declared
      cases declared
    · exact meets other mem t declared
  | case3 found type pending t declared old ih =>
    -- What is found has the name of the type, and a name resolves to one type only.
    have there : t ∈ found := by
      obtain ⟨u, mem, same⟩ := List.any_eq_true.1 old
      have first := known u mem
      rw [show u.name = t.name by simpa using same, (find?_of_resolve? declared).2] at first
      cases first
      exact mem
    rw [search_cons, declared]
    dsimp only
    rw [if_pos old]
    obtain ⟨known, keeps, meets, closed⟩ := ih known
    refine ⟨known, keeps, ?_, closed⟩
    intro other mem u declared'
    rcases List.mem_cons.1 mem with rfl | mem
    · rw [declared] at declared'
      cases declared'
      exact keeps t there
    · exact meets other mem u declared'
  | case4 found type pending t declared new fewer ih =>
    rw [search_cons, declared]
    dsimp only
    rw [if_neg new]
    obtain ⟨known, keeps, meets, closed⟩ := ih <| by
      intro u mem
      rcases List.mem_append.1 mem with mem | mem
      · exact known u mem
      · obtain rfl : u = t := by simpa using mem
        exact (find?_of_resolve? declared).2
    refine ⟨known, fun u mem => keeps u (by simp [mem]), ?_, ?_⟩
    · intro other mem u declared'
      rcases List.mem_cons.1 mem with rfl | mem
      · rw [declared] at declared'
        cases declared'
        exact keeps t (by simp)
      · exact meets other (List.mem_append_right _ mem) u declared'
    · intro u mem
      rcases closed u mem with before | closed
      · rcases List.mem_append.1 before with before | new
        · exact Or.inl before
        · obtain rfl : u = t := by simpa using new
          exact Or.inr fun type inside => meets type (List.mem_append_left _ inside)
      · exact Or.inr closed

variable {r q : Registry} {fields specs : List FieldSpec} {types : List FieldType} {type : FieldType}

theorem mem_referencedTypes (reaches : r.Reaches (FieldSpec.mentioned fields) type) {t : NamedType}
    (declared : r.resolve? type = some t) : t ∈ r.referencedTypes fields := by
  have gathers : Gathers r [] (FieldSpec.mentioned fields) (r.referencedTypes fields) :=
    gathers_search (by simp)
  induction reaches generalizing t with
  | mentioned mem => exact gathers.meets _ mem t declared
  | through outer declared' mem ih =>
    rcases gathers.closed _ (ih declared') with found | closed
    · cases found
    · exact closed _ mem t declared

/-- The types that are found are a registry by themselves, as good as the whole one for every type that
is reached. -/
theorem resolve?_referencedTypes (reaches : r.Reaches (FieldSpec.mentioned fields) type) :
    (⟨r.referencedTypes fields⟩ : Registry).resolve? type = r.resolve? type := by
  have gathers : Gathers r [] (FieldSpec.mentioned fields) (r.referencedTypes fields) :=
    gathers_search (by simp)
  have known : ∀ u, (⟨r.referencedTypes fields⟩ : Registry).resolve? type = some u → r.resolve? type = some u := by
    intro u found
    obtain ⟨rfl, _⟩ := find?_of_resolve? found
    exact gathers.known u (mem_of_resolve? found)
  cases found : (⟨r.referencedTypes fields⟩ : Registry).resolve? type with
  | some u => exact (known u found).symm
  | none =>
    cases declared : r.resolve? type with
    | none => rfl
    | some t =>
      have mem := mem_referencedTypes reaches declared
      obtain ⟨rfl, _⟩ := find?_of_resolve? declared
      have missing := List.find?_eq_none.1 found t mem
      simp at missing

theorem resolve?_of_referencedTypes (same : r.referencedTypes fields = q.referencedTypes fields)
    (reaches : r.Reaches (FieldSpec.mentioned fields) type) : q.resolve? type = r.resolve? type := by
  have both : q.Reaches (FieldSpec.mentioned fields) type := by
    induction reaches with
    | mentioned mem => exact .mentioned mem
    | through outer declared mem ih =>
      refine .through ih ?_ mem
      rw [← resolve?_referencedTypes ih, ← same, resolve?_referencedTypes outer, declared]
  rw [← resolve?_referencedTypes both, ← same, resolve?_referencedTypes reaches]

def Covers (r : Registry) (types : List FieldType) (specs : List FieldSpec) : Prop :=
  ∀ type ∈ FieldSpec.mentioned specs, r.Reaches types type

theorem Covers.subset {more : List FieldSpec} (h : r.Covers types more) (sub : ∀ s ∈ specs, s ∈ more) :
    r.Covers types specs := by
  intro type mem
  obtain ⟨s, inside, mentions⟩ := List.mem_flatMap.1 mem
  exact h type (List.mem_flatMap.2 ⟨s, sub s inside, mentions⟩)

theorem Reaches.covers {t : NamedType} (reaches : r.Reaches types type) (declared : r.resolve? type = some t) :
    r.Covers types t.fields := fun _ mem => reaches.through declared mem

theorem Covers.own (h : r.Covers types specs) {s : FieldSpec} (mem : s ∈ specs) :
    r.Reaches types s.type := h s.type (List.mem_flatMap.2 ⟨s, mem, by simp [FieldSpec.types]⟩)

theorem Covers.elementType (h : r.Covers types specs) {s : FieldSpec} (mem : s ∈ specs)
    {e : FieldType} (elements : s.elementType = some e) : r.Reaches types e :=
  h e (List.mem_flatMap.2 ⟨s, mem, by simp [FieldSpec.types, elements]⟩)

theorem Covers.group {fields : List FieldSpec} (h : r.Covers types fields) {g : FieldGroup}
    (group : g ∈ FieldGroup.ofFields fields) : r.Covers types g.variants :=
  h.subset fun _ mem => FieldGroup.mem_fields group mem

theorem Covers.active {g active : FieldGroup} (h : r.Covers types g.variants) {scope : FoldedKeys}
    (found : activeVariants g scope = .ok active) : r.Covers types active.variants := by
  obtain ⟨kept, filtered, found⟩ := Outcome.bind_eq_ok.1 found
  cases found
  rw [Outcome.filterM_eq_ok_iff] at filtered
  refine h.subset fun s mem => ?_
  rw [filtered.2] at mem
  exact List.mem_of_mem_filter mem

theorem fits_named (r : Registry) (n : String) (m : Entries) :
    r.fits (.mapping m) (.named n) =
      match r.find? n with
      | none => false
      | some t => t.groups.all fun g =>
        match Entries.get? g.name m with
        | none => !g.isRequired
        | some v => (r.variant? v g.variants).isSome := by
  have any : ∀ (v : Value) (specs : List FieldSpec),
      (r.variant? v specs).isSome = specs.any fun s => r.fits v s.type := by
    intro v specs
    rw [Bool.eq_iff_iff]
    simp [variant?]
  simp only [any]
  conv => lhs; rw [fits]
  cases r.find? n with
  | none => rfl
  | some t =>
    refine List.all_congr rfl fun g => ?_
    split <;> rename_i present <;> simp only [present]

def AgreeOn (r q : Registry) (types : List FieldType) : Prop :=
  ∀ type, r.Reaches types type → q.resolve? type = r.resolve? type

mutual

theorem fits_congr (agree : r.AgreeOn q types) (v : Value) {type : FieldType} (reaches : r.Reaches types type) :
    q.fits v type = r.fits v type := by
  cases type with
  | primitive k => rw [fits_primitive, fits_primitive]
  | named n =>
    cases v with
    | scalar s => simp [fits]
    | sequence kind items => simp [fits]
    | mapping m =>
      have found : q.find? n = r.find? n := agree _ reaches
      rw [fits_named, fits_named, found]
      cases declared : r.find? n with
      | none => rfl
      | some t =>
        have covers : r.Covers types t.fields := reaches.covers declared
        rw [Bool.eq_iff_iff, List.all_eq_true, List.all_eq_true]
        refine forall₂_congr fun g group => ?_
        cases present : Entries.get? g.name m with
        | none => rfl
        | some v =>
          have smaller := Entries.sizeOf_get?_lt present
          dsimp only
          rw [variant?_congr agree v (covers.group group)]
termination_by (sizeOf v, 0)
decreasing_by
  apply Prod.Lex.left
  simp only [Value.mapping.sizeOf_spec]
  omega

theorem variant?_congr (agree : r.AgreeOn q types) (v : Value) {specs : List FieldSpec}
    (covers : r.Covers types specs) :
    q.variant? v specs = r.variant? v specs :=
  List.find?_congr fun s mem => fits_congr agree v (covers.own mem)
termination_by (sizeOf v, 1)

end

section agree

variable (agree : r.AgreeOn q types)

include agree

theorem misfits_congr (m : Entries) {t : NamedType} (covers : r.Covers types t.fields) :
    q.misfits m t = r.misfits m t := by
  refine List.filterMap_congr fun g group => ?_
  split
  · rfl
  · rw [variant?_congr agree _ (covers.group group)]

theorem firstMisfits_congr (m : Entries) (covers : r.Covers types specs) :
    q.firstMisfits m specs = r.firstMisfits m specs := by
  unfold firstMisfits
  rw [← List.head?_filterMap, ← List.head?_filterMap]
  congr 1
  refine List.filterMap_congr fun s mem => ?_
  have reaches := covers.own mem
  rw [agree _ reaches]
  cases declared : r.resolve? s.type with
  | none => rfl
  | some t => simp only [bind, Option.bind, misfits_congr agree m (reaches.covers declared)]

theorem mismatch_congr (v : Value) {g : FieldGroup} (path : String) (covers : r.Covers types g.variants) :
    q.mismatch v g path = r.mismatch v g path := by
  unfold mismatch mismatchMessage
  cases v with
  | mapping m => simp only [firstMisfits_congr agree m covers]
  | _ => rfl

theorem elementMismatch_congr (v : Value) (path : String) (reaches : r.Reaches types type) :
    q.elementMismatch v type path = r.elementMismatch v type path := by
  unfold elementMismatch
  rw [agree _ reaches]
  cases declared : r.resolve? type with
  | none => rfl
  | some t =>
    cases v with
    | mapping m => simp only [misfits_congr agree m (reaches.covers declared)]
    | _ => rfl

end agree

variable {top seen scope inside : FoldedKeys}

theorem activeVariants_congr (alike : inside.Alike scope) (g : FieldGroup) :
    activeVariants g inside = activeVariants g scope := by
  have each : ∀ s, conditionsHold s inside = conditionsHold s scope := by
    intro s
    unfold conditionsHold
    simp only [alike _]
  unfold activeVariants
  simp only [each]

theorem crossFindings_congr (alike : seen.Alike top) (v : Value) (spec : FieldSpec) (path : String) :
    crossFindings v spec path seen = crossFindings v spec path top := by
  unfold crossFindings
  split
  · rename_i c _
    unfold CrossFieldConstraint.findings
    rw [alike]
  · rfl

theorem groupFindingsIn_congr {g : FieldGroup} {place : String} {present : Option Value}
    (alike : inside.Alike scope) (covers : r.Covers types g.variants)
    (value : ∀ v, present = some v → ∀ active : FieldGroup, r.Covers types active.variants →
      q.valueFindings seen active place v = r.valueFindings top active place v) :
    q.groupFindingsIn seen inside g place present = r.groupFindingsIn top scope g place present := by
  unfold groupFindingsIn
  rw [activeVariants_congr alike]
  cases found : activeVariants g scope with
  | error f => rfl
  | ok active =>
    cases present with
    | none => rfl
    | some v => simp only [bind, Except.bind, value v rfl active (covers.active found)]

theorem memberFindings_congr (agree : r.AgreeOn q types) {place : String} {v : Value}
    (reaches : r.Reaches types type)
    (object : ∀ t m, v = .mapping m → r.Covers types t.fields →
      q.objectFindings seen t place m = r.objectFindings top t place m) :
    q.memberFindings seen type place v = r.memberFindings top type place v := by
  unfold memberFindings
  rw [agree _ reaches]
  cases declared : r.resolve? type with
  | none => cases v <;> rfl
  | some t =>
    cases v with
    | mapping m => exact object t m rfl (reaches.covers declared)
    | _ => rfl

mutual

theorem valueFindings_congr (agree : r.AgreeOn q types) (alike : seen.Alike top) (v : Value) {g : FieldGroup}
    (path : String) (covers : r.Covers types g.variants) :
    q.valueFindings seen g path v = r.valueFindings top g path v := by
  rw [valueFindings_step, valueFindings_step, variant?_congr agree v covers, mismatch_congr agree v path covers]
  cases chosen : r.variant? v g.variants with
  | none => rfl
  | some spec =>
    have mem : spec ∈ g.variants := List.mem_of_find?_eq_some chosen
    have elements : q.arrayFindings seen spec path v = r.arrayFindings top spec path v := by
      unfold arrayFindings
      cases enter : elementsToEnter v spec with
      | none => rfl
      | some pair =>
        obtain ⟨e, items⟩ := pair
        obtain ⟨_, elements, kind, same⟩ := elementsToEnter_eq_some_iff.1 enter
        have smaller : sizeOf items < sizeOf v := by
          rw [same, Value.sequence.sizeOf_spec]
          omega
        exact elementFindings_congr agree alike items path 0 (covers.elementType mem elements)
    have members : q.memberFindings seen spec.type path v = r.memberFindings top spec.type path v := by
      cases v with
      | mapping m =>
        refine memberFindings_congr agree (covers.own mem) fun t m' same inner => ?_
        cases same
        exact objectFindings_congr agree alike m path inner
      | _ => exact memberFindings_congr agree (covers.own mem) fun t m same => by cases same
    dsimp only
    rw [elements, members]
    simp only [crossFindings_congr alike]
termination_by (sizeOf v, 1)

theorem elementFindings_congr (agree : r.AgreeOn q types) (alike : seen.Alike top) (items : List Value)
    {type : FieldType} (path : String) (position : Nat) (reaches : r.Reaches types type) :
    q.elementFindings seen type path position items = r.elementFindings top type path position items := by
  cases items with
  | nil => rw [elementFindings_nil, elementFindings_nil]
  | cons v rest =>
    have member : q.memberFindings seen type s!"{path}[{position}]" v =
        r.memberFindings top type s!"{path}[{position}]" v := by
      cases v with
      | mapping m =>
        refine memberFindings_congr agree reaches fun t m' same inner => ?_
        cases same
        exact objectFindings_congr agree alike m _ inner
      | _ => exact memberFindings_congr agree reaches fun t m same => by cases same
    rw [elementFindings_cons, elementFindings_cons, fits_congr agree v reaches, member,
      elementMismatch_congr agree v _ reaches, elementFindings_congr agree alike rest path (position + 1) reaches]
termination_by (sizeOf items, 0)

theorem objectFindings_congr (agree : r.AgreeOn q types) (alike : seen.Alike top) (m : Entries) {t : NamedType}
    (path : String) (covers : r.Covers types t.fields) :
    q.objectFindings seen t path m = r.objectFindings top t path m := by
  have groups : ∀ keys, (t.groups.mapM fun g =>
      q.groupFindingsIn seen keys g s!"{path}.{g.name}" (Entries.get? g.name m)) =
        t.groups.mapM fun g =>
          r.groupFindingsIn top keys g s!"{path}.{g.name}" (Entries.get? g.name m) := by
    refine fun keys => Outcome.mapM_congr fun g group => ?_
    refine groupFindingsIn_congr (fun _ => rfl) (covers.group group) fun v present active inner => ?_
    have smaller := Entries.sizeOf_get?_lt present
    exact valueFindings_congr agree alike v _ inner
  rw [objectFindings_step, objectFindings_step]
  simp only [groups]
termination_by (sizeOf m, 0)

end

theorem groupFindings_congr {fields : List FieldSpec} (agree : r.AgreeOn q (FieldSpec.mentioned fields))
    (alike : seen.Alike top) {g : FieldGroup} (group : g ∈ FieldGroup.ofFields fields) :
    q.groupFindings seen g = r.groupFindings top g := by
  have covers : r.Covers (FieldSpec.mentioned fields) fields := fun _ mem => .mentioned mem
  rw [groupFindings_step, groupFindings_step, alike]
  exact groupFindingsIn_congr alike (covers.group group) fun v _ active inner =>
    valueFindings_congr agree alike v _ inner

theorem validate_congr {s : Schema} (agree : r.AgreeOn q (FieldSpec.mentioned s.fields)) (document : String)
    (frontmatter : Option Entries) (checkUnknown : Bool) :
    q.validate document frontmatter s checkUnknown = r.validate document frontmatter s checkUnknown := by
  have groups : ∀ top, s.groups.mapM (q.groupFindings top) = s.groups.mapM (r.groupFindings top) :=
    fun top => Outcome.mapM_congr fun g group => groupFindings_congr agree (fun _ => rfl) group
  unfold validate findings
  simp only [groups]

end Registry
end VaultSchema
