import VaultSchema.Proofs.Schema.Agreement

/-! Groups whose conditions fail. The walk through a mapping passes such a group over, as though its
type did not have it. The test of a value's type reads no conditions: a mapping is taken for one of
its type only if the group is right in it all the same. -/

set_option autoImplicit false

namespace VaultSchema.Registry

variable {r : Registry} {top scope : FoldedKeys} {n : String} {t : NamedType} {g : FieldGroup} {m : Entries}

/-- In a mapping of which keys can be looked up, no variant of a group is active. -/
def Inactive (m : Entries) (g : FieldGroup) : Prop :=
  ∀ scope, FoldedKeys.ofEntries m = .ok scope → ∀ s ∈ g.variants, ¬s.Active scope

theorem groupFindingsIn_inactive (none : ∀ s ∈ g.variants, ¬s.Active scope) {place : String}
    {present : Option Value} {fs : List Finding} (found : r.groupFindingsIn top scope g place present = .ok fs) :
    fs = [] := by
  obtain ⟨active, kept, found⟩ := Outcome.bind_eq_ok.1 found
  obtain ⟨keep, rfl, sense⟩ := activeVariants_eq_ok kept
  have empty : g.variants.filter keep = [] := by
    rw [List.filter_eq_nil_iff]
    exact fun s mem kept => none s mem ((sense s mem).1 kept)
  rw [empty] at found
  cases found
  rfl

/-- What the walk reports of a mapping when a group is inactive: the keys that the type does not declare,
and what it reports of the other groups. -/
theorem objectFindings_inactive (group : g ∈ t.groups) (inactive : Inactive m g) {path : String}
    {fs : List Finding} (found : r.objectFindings top t path m = .ok fs) :
    ∃ scope stray inner, FoldedKeys.ofEntries m = .ok scope ∧ strayKeys m t path = .ok stray ∧
      ((t.without g.name).groups.mapM fun h =>
        r.groupFindingsIn top scope h s!"{path}.{h.name}" (Entries.get? h.name m)) = .ok inner ∧
      fs = stray ++ inner.flatten := by
  rw [objectFindings_step] at found
  obtain ⟨stray, strays, found⟩ := Outcome.bind_eq_ok.1 found
  obtain ⟨scope, keys, found⟩ := Outcome.bind_eq_ok.1 found
  obtain ⟨all, groups, found⟩ := Outcome.bind_eq_ok.1 found
  cases found
  have keys := Check.ofValue_eq_ok.1 keys
  obtain ⟨inner, others, same⟩ := Outcome.mapM_filter_flatten (p := fun h => h.name ≠ g.name) groups (by
    intro h mem own fs found
    obtain rfl := FieldGroup.eq_of_name mem group (by simpa using own)
    exact groupFindingsIn_inactive (inactive scope keys) found)
  exact ⟨scope, stray, inner, keys, strays, (NamedType.groups_without t g.name).symm ▸ others, by rw [same]⟩

/-- A group that is right in a mapping is not among the reasons why the mapping is of another type. -/
theorem misfits_without (group : g ∈ t.groups) (right : r.GroupFits m g) :
    r.misfits m t = r.misfits m (t.without g.name) := by
  unfold misfits
  rw [NamedType.groups_without, List.filterMap_filter]
  refine List.filterMap_congr fun h mem => ?_
  by_cases own : h.name = g.name
  · obtain rfl := FieldGroup.eq_of_name mem group own
    unfold GroupFits at right
    cases present : Entries.get? h.name m <;> simp_all
  · simp [own]

/-- Nothing at a place is said to be missing or of a wrong type. -/
def Unblamed (place : String) (fs : List Finding) : Prop := ∀ f ∈ fs, f.field = place → f.kind.isShape = false

theorem unblamed_field (fits : r.fits (.mapping m) (.named n) = true) {holder : FieldGroup}
    (holds : ∃ s ∈ holder.variants, s.type = .named n) {place : String} {fs : List Finding}
    (found : r.valueFindings top holder place (.mapping m) = .ok fs) : Unblamed place fs := by
  intro f mem here
  by_contra shape
  have unfit := (arises_value _ found f mem).unfit_value here (by simpa using shape)
  obtain ⟨s, variant, type⟩ := holds
  have apart := List.find?_eq_none.1 unfit s variant
  rw [type] at apart
  exact apart fits

theorem unblamed_element (fits : r.fits (.mapping m) (.named n) = true) {holder : FieldGroup} {spec : FieldSpec}
    {kind : SequenceKind} {items : List Value} {i : Nat}
    (chosen : r.variant? (.sequence kind items) holder.variants = some spec)
    (array : spec.type = .primitive .array) (elements : spec.elementType = some (.named n))
    (there : items[i]? = some (.mapping m)) {place : String} {fs : List Finding}
    (found : r.valueFindings top holder place (.sequence kind items) = .ok fs) : Unblamed s!"{place}[{i}]" fs := by
  intro f mem here
  have enter : elementsToEnter (.sequence kind items) spec = some (.named n, items) :=
    elementsToEnter_eq_some_iff.2 ⟨array, elements, kind, rfl⟩
  have unfit := (arises_value _ found f mem).unfit_element chosen enter there here
  simp [fits] at unfit

theorem fits_iff_others (declared : r.find? n = some t) (right : r.GroupFits m g) :
    r.fits (.mapping m) (.named n) = true ↔ ∀ h ∈ t.groups, h ≠ g → r.GroupFits m h := by
  rw [fits_iff declared]
  refine ⟨fun all h mem _ => all h mem, fun others h mem => ?_⟩
  by_cases own : h = g
  · exact own ▸ right
  · exact others h mem own

/-- An inactive group of a declared type adds nothing to what the walk through a mapping reports. If the
group is right there all the same, it is no reason why the mapping should be of another type; the mapping is
of the type when all other groups are right, and then it is not reported, be it the value of a field or a
member of an array. A group that is not right keeps the mapping from being of the type. -/
theorem inactive_skipped (declared : r.find? n = some t) (group : g ∈ t.groups) (inactive : Inactive m g) :
    (∀ top path fs, r.objectFindings top t path m = .ok fs →
      ∃ scope stray inner, FoldedKeys.ofEntries m = .ok scope ∧ strayKeys m t path = .ok stray ∧
        ((t.without g.name).groups.mapM fun h =>
          r.groupFindingsIn top scope h s!"{path}.{h.name}" (Entries.get? h.name m)) = .ok inner ∧
        fs = stray ++ inner.flatten) ∧
      (r.GroupFits m g →
        r.misfits m t = r.misfits m (t.without g.name) ∧
        (r.fits (.mapping m) (.named n) = true ↔ ∀ h ∈ t.groups, h ≠ g → r.GroupFits m h) ∧
        ((∀ h ∈ t.groups, h ≠ g → r.GroupFits m h) → ∀ (top : FoldedKeys) (holder : FieldGroup) (place : String),
          (∀ fs, (∃ s ∈ holder.variants, s.type = .named n) →
            r.valueFindings top holder place (.mapping m) = .ok fs → Unblamed place fs) ∧
          ∀ (kind : SequenceKind) (items : List Value) (i : Nat) (spec : FieldSpec) (fs : List Finding),
            r.variant? (.sequence kind items) holder.variants = some spec → spec.type = .primitive .array →
            spec.elementType = some (.named n) → items[i]? = some (.mapping m) →
            r.valueFindings top holder place (.sequence kind items) = .ok fs → Unblamed s!"{place}[{i}]" fs)) ∧
      (¬r.GroupFits m g → r.fits (.mapping m) (.named n) = false) := by
  refine ⟨fun _ _ _ => objectFindings_inactive group inactive, fun right => ?_, fun wrong => ?_⟩
  · have fits := fits_iff_others declared right
    refine ⟨misfits_without group right, fits, fun others top holder place => ⟨fun fs holds => ?_, ?_⟩⟩
    · exact unblamed_field (fits.2 others) holds
    · intro kind items i spec fs chosen array elements there
      exact unblamed_element (fits.2 others) chosen array elements there
  · rw [← Bool.not_eq_true, fits_iff declared]
    exact fun all => wrong (all g group)

/-- The addresses of blocks, of which only links have one. -/
def addresses (required : Bool) : FieldGroup where
  name := "url"
  variants := [
    { name := "url", type := .primitive .string, required := required, conditions := [⟨"kind", .equals, "link"⟩] }]

def block (required : Bool) : NamedType where
  name := "block"
  fields := { name := "kind", type := .primitive .string } :: (addresses required).variants

def blocks (required : Bool) : Registry where
  types := [block required]

def remark : Entries := [(.text "kind", .text "note")]

def leaves : Schema where
  id := "pages"
  query := "*"
  fields := [{ name := "block", type := .named "block" }]

theorem block_groups (required : Bool) : (block required).groups =
    [⟨"kind", [{ name := "kind", type := .primitive .string }]⟩, addresses required] := by
  cases required <;> decide

theorem addresses_declared (required : Bool) : addresses required ∈ (block required).groups := by
  rw [block_groups]
  exact List.mem_cons_of_mem _ (List.mem_singleton.2 rfl)

theorem remark_inactive (required : Bool) : Inactive remark (addresses required) := by
  intro scope keys s mem active
  obtain rfl := List.mem_singleton.1 mem
  have read : FoldedKeys.ofEntries remark = .ok ⟨[("kind", .text "kind", .text "note")]⟩ := by cbv
  obtain rfl := Except.ok.inj (read.symm.trans keys)
  have met := active ⟨"kind", .equals, "link"⟩ (List.mem_singleton.2 rfl)
  have fails : Operator.equals.evaluate (.text "note") "link" = .ok false := by cbv
  have value : (FoldedKeys.value? ⟨[("kind", .text "kind", .text "note")]⟩ "kind").getD .null = .text "note" := by cbv
  unfold FieldCondition.Met at met
  rw [value, fails] at met
  cases met

theorem remark_kind (required : Bool) : ∀ h ∈ (block required).groups, h ≠ addresses required →
    (blocks required).GroupFits remark h := by
  intro h group other
  rw [block_groups] at group
  rcases List.mem_pair.1 group with rfl | rfl
  · show Option.isSome _ = true
    cbv
  · exact absurd rfl other

/-- Where the address is not required, a block without one is a block, and nothing is reported. -/
theorem inactive_skipped_remark :
    (blocks false).find? "block" = some (block false) ∧ addresses false ∈ (block false).groups ∧
      Inactive remark (addresses false) ∧ (blocks false).GroupFits remark (addresses false) ∧
      (blocks false).fits (.mapping remark) (.named "block") = true ∧
      (blocks false).objectFindings ⟨[]⟩ (block false) "block" remark = .ok [] ∧
      ∃ scope stray inner, FoldedKeys.ofEntries remark = .ok scope ∧
        strayKeys remark (block false) "block" = .ok stray ∧
        (((block false).without "url").groups.mapM fun h =>
          (blocks false).groupFindingsIn ⟨[]⟩ scope h s!"block.{h.name}" (Entries.get? h.name remark)) = .ok inner ∧
        [] = stray ++ inner.flatten := by
  have group := addresses_declared false
  have inactive := remark_inactive false
  have right : (blocks false).GroupFits remark (addresses false) := rfl
  have walked : (blocks false).objectFindings ⟨[]⟩ (block false) "block" remark = .ok [] := by cbv
  obtain ⟨skipped, kept, -⟩ := inactive_skipped (r := blocks false) (n := "block") rfl group inactive
  obtain ⟨-, fits, -⟩ := kept right
  exact ⟨rfl, group, inactive, right, fits.2 (remark_kind false), walked, skipped _ _ _ walked⟩

/-- Where it is required of links, a block that is no link and has no address is reported, though all that is
asked of it is right. -/
theorem required_link_blamed :
    addresses true ∈ (block true).groups ∧ Inactive remark (addresses true) ∧
      (∀ h ∈ (block true).groups, h ≠ addresses true → (blocks true).GroupFits remark h) ∧
      (blocks true).fits (.mapping remark) (.named "block") = false ∧
      (blocks true).validate "a.md" (some [(.text "block", .mapping remark)]) leaves false =
        .ok [⟨"a.md", "pages", "block", .typeMismatch,
          "Type mismatch: block (expected block): missing required field \"url\"", some "block", some "object"⟩] :=
  ⟨addresses_declared true, remark_inactive true, remark_kind true, by cbv, by cbv⟩

end VaultSchema.Registry
