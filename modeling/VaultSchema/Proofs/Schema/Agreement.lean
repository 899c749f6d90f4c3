import VaultSchema.Proofs.Schema.Conformance
import VaultSchema.Proofs.Schema.Groups
import VaultSchema.Proofs.Schema.Origins
import VaultSchema.Proofs.Schema.Reach

/-! The test of a value's type and the walk through the value agree, at any depth but for the
members of arrays, which the test does not look at. -/

set_option autoImplicit false

namespace VaultSchema

namespace Registry

variable {r : Registry} {top scope : FoldedKeys}

/-- A group is right in a mapping, whatever conditions its variants have: its key is there with a value of
a variant's type, or it is not and no variant requires it. -/
def GroupFits (r : Registry) (m : Entries) (g : FieldGroup) : Prop :=
  match Entries.get? g.name m with
  | none => g.isRequired = false
  | some v => (r.variant? v g.variants).isSome = true

theorem fits_iff {n : String} {t : NamedType} (declared : r.find? n = some t) {m : Entries} :
    r.fits (.mapping m) (.named n) = true ↔ ∀ g ∈ t.groups, r.GroupFits m g := by
  rw [fits_named, declared, List.all_eq_true]
  refine forall₂_congr fun g _ => ?_
  unfold GroupFits
  cases Entries.get? g.name m <;> simp

theorem groupFits_of_resolve? {type : FieldType} {t : NamedType} (declared : r.resolve? type = some t)
    {m : Entries} (fits : r.fits (.mapping m) type = true) : ∀ g ∈ t.groups, r.GroupFits m g := by
  cases type with
  | primitive k => cases declared
  | named n => exact (fits_iff declared).1 fits

theorem fits_of_variant? {v : Value} {variants : List FieldSpec} {spec : FieldSpec}
    (chosen : r.variant? v variants = some spec) : r.fits v spec.type = true := by
  simpa using List.find?_some chosen

theorem activeVariants_free {g : FieldGroup} (free : ∀ s ∈ g.variants, s.conditions = []) (scope : FoldedKeys) :
    activeVariants g scope = .ok g := by
  have holds : ∀ s ∈ g.variants, conditionsHold s scope = .ok true := by
    intro s mem
    unfold conditionsHold
    rw [free s mem]
    cases s.conditionLogic <;> rfl
  have all : g.variants.filterM (fun s => conditionsHold s scope) = .ok g.variants := by
    rw [Outcome.filterM_eq_ok_iff]
    refine ⟨fun s mem => ⟨true, holds s mem⟩, (List.filter_eq_self.2 fun s mem => ?_).symm⟩
    rw [holds s mem, Outcome.yes_ok]
  unfold activeVariants
  rw [all]
  rfl

theorem groupFindings_single (spec : FieldSpec) (free : spec.conditions = []) {top : FoldedKeys} {v : Value}
    (present : top.value? spec.name = some v) :
    r.groupFindings top ⟨spec.name, [spec]⟩ = r.valueFindings top ⟨spec.name, [spec]⟩ spec.name v := by
  have active : activeVariants ⟨spec.name, [spec]⟩ top = .ok ⟨spec.name, [spec]⟩ :=
    activeVariants_free (by simpa using free) top
  rw [groupFindings_step, groupFindingsIn, active, present]
  rfl

/-- Active variants demand no more than all of them do. -/
theorem isRequired_active {g active : FieldGroup} (kept : activeVariants g scope = .ok active)
    (free : g.isRequired = false) : active.isRequired = false := by
  obtain ⟨keep, rfl, _⟩ := activeVariants_eq_ok kept
  unfold FieldGroup.isRequired at free ⊢
  rw [List.any_eq_false] at free ⊢
  exact fun s mem => free s (List.mem_of_mem_filter mem)

/-- What may be reported inside a value of a declared type: nothing that is required is missing there, no
recommended field has a value of a wrong type, and where a value has one it is a member of an array. -/
structure Tolerated (r : Registry) (f : Finding) : Prop where
  required : f.kind ≠ .missingRequired
  recommended : f.kind ≠ .typeMismatchWarned
  member : f.kind = .typeMismatch → ∃ (x : Value) (type : FieldType) (place : String) (i : Nat),
    r.fits x type = false ∧ f = r.elementMismatch x type s!"{place}[{i}]"

theorem Tolerated.of_kind {f : Finding} (required : f.kind ≠ .missingRequired)
    (recommended : f.kind ≠ .typeMismatchWarned) (matches_ : f.kind ≠ .typeMismatch) : r.Tolerated f :=
  ⟨required, recommended, fun mismatch => absurd mismatch matches_⟩

theorem tolerated_of_constrains {path : String} {f : Finding} (h : f.Constrains path) : r.Tolerated f := by
  have kind := h.not_shape
  refine .of_kind ?_ ?_ ?_ <;> intro same <;> simp [same, ViolationKind.isShape] at kind

/-- What the test of a value's type says at a place of the walk. -/
def Matches (r : Registry) : Stop → Prop
  | .value g _ v => (r.variant? v g.variants).isSome = true
  | .element _ path _ => ∃ (place : String) (i : Nat), path = s!"{place}[{i}]"
  | .object t _ m => t ∈ r.types ∧ ∀ g ∈ t.groups, r.GroupFits m g

theorem Arises.tolerated (free : ∀ t ∈ r.types, ∀ f ∈ t.fields, f.conditions = []) {stop : Stop} {f : Finding}
    (h : Arises r top stop f) (right : r.Matches stop) : r.Tolerated f := by
  induction h with
  | mismatch unfit => simp [Matches, unfit] at right
  | plain _ found mem => exact tolerated_of_constrains (constrains_plainFindings found _ mem)
  | cross _ found mem => exact tolerated_of_constrains (constrains_crossFindings found _ mem)
  | element _ _ _ _ ih => exact ih ⟨_, _, rfl⟩
  | inside chosen declared _ ih =>
    exact ih ⟨mem_of_resolve? declared, groupFits_of_resolve? declared (fits_of_variant? chosen)⟩
  | @unfit type path v unfit =>
    obtain ⟨place, i, rfl⟩ := right
    exact ⟨nofun, nofun, fun _ => ⟨v, type, place, i, unfit, rfl⟩⟩
  | entered fits declared _ ih => exact ih ⟨mem_of_resolve? declared, groupFits_of_resolve? declared fits⟩
  | stray found mem =>
    obtain ⟨e, _, made⟩ := Outcome.exists_of_mem_mapM found mem
    obtain ⟨key, _, made⟩ := Outcome.bind_eq_ok.1 made
    cases made
    exact .of_kind nofun nofun nofun
  | absent group _ kept absent mem =>
    have optional := right.2 _ group
    rw [GroupFits, absent] at optional
    unfold absenceFindings at mem
    rw [if_neg (by simp [isRequired_active kept optional])] at mem
    split at mem
    · rw [List.mem_singleton.1 mem]
      exact .of_kind nofun nofun nofun
    · cases mem
  | @member t path m g active scope v f group _ kept present _ ih =>
    have own := right.2 g group
    rw [GroupFits, present] at own
    have all := activeVariants_free (fun s mem => free t right.1 s (FieldGroup.mem_fields group mem)) scope
    obtain rfl := Except.ok.inj (all.symm.trans kept)
    exact ih own

/-- The message tells whether a value or a member of an array is of a wrong type. -/
theorem mismatch_ne_elementMismatch {v x : Value} {g : FieldGroup} {type : FieldType} {path place : String} :
    r.mismatch v g path ≠ r.elementMismatch x type place := by
  intro same
  have messages := congrArg (fun f : Finding => f.message.toList.head?) same
  have first : (r.mismatch v g path).message.toList.head? = some 'T' := by
    unfold mismatch mismatchMessage
    dsimp only
    split
    · split <;> simp [toString]
    · simp [toString]
  have second : (r.elementMismatch x type place).message.toList.head? = some 'A' := by
    unfold elementMismatch
    dsimp only
    split
    · split <;> simp [toString]
    · simp [toString]
  rw [first, second] at messages
  cases messages

theorem not_tolerated_mismatch (v : Value) (g : FieldGroup) (path : String) : ¬r.Tolerated (r.mismatch v g path) := by
  intro tolerated
  by_cases warned : g.isWarned = true
  · exact tolerated.recommended (by simp [mismatch, warned])
  · obtain ⟨_, _, _, _, _, same⟩ := tolerated.member (by simp [mismatch, warned])
    exact mismatch_ne_elementMismatch same

theorem groupFits_of_tolerated {g : FieldGroup} (free : ∀ s ∈ g.variants, s.conditions = [])
    (some : ∃ s, s ∈ g.variants) {m : Entries} {place : String} {fs : List Finding}
    (found : r.groupFindingsIn top scope g place (Entries.get? g.name m) = .ok fs)
    (tolerated : ∀ f ∈ fs, r.Tolerated f) : r.GroupFits m g := by
  have nonempty : ¬g.variants.isEmpty = true := by
    obtain ⟨s, variant⟩ := some
    exact fun none => by simp [List.isEmpty_iff.1 none] at variant
  unfold groupFindingsIn at found
  rw [activeVariants_free free scope] at found
  change (if g.variants.isEmpty = true then _ else _) = _ at found
  rw [if_neg nonempty] at found
  unfold GroupFits
  cases present : Entries.get? g.name m with
  | none =>
    rw [present] at found
    cases found
    dsimp only
    cases required : g.isRequired with
    | false => rfl
    | true =>
      have missing := tolerated ⟨place, .missingRequired, s!"Missing required field: {place}", none, none⟩
        (by simp [absenceFindings, required])
      exact absurd rfl missing.required
  | some v =>
    rw [present] at found
    dsimp only at found ⊢
    rw [valueFindings_step] at found
    cases chosen : r.variant? v g.variants with
    | some spec => rfl
    | none =>
      rw [chosen] at found
      cases found
      exact absurd (tolerated _ (List.mem_singleton.2 rfl)) (not_tolerated_mismatch v g place)

/-- Where no declared type has conditions, a mapping is of a declared type just when everything that the
walk through it reports, at any depth, is tolerated in a value of its type. -/
theorem fits_iff_tolerated (free : ∀ t ∈ r.types, ∀ f ∈ t.fields, f.conditions = []) {n : String} {t : NamedType}
    (declared : r.find? n = some t) {top : FoldedKeys} {path : String} {m : Entries} {fs : List Finding}
    (found : r.objectFindings top t path m = .ok fs) :
    r.fits (.mapping m) (.named n) = true ↔ ∀ f ∈ fs, r.Tolerated f := by
  have known : t ∈ r.types := List.mem_of_find?_eq_some declared
  rw [fits_iff declared]
  constructor
  · exact fun fits f mem => (arises_object m found f mem).tolerated free ⟨known, fits⟩
  -- What is found in a group is among what is found in the mapping, so it is tolerated there as well.
  · intro tolerated g group
    rw [objectFindings_step] at found
    obtain ⟨stray, _, found⟩ := Outcome.bind_eq_ok.1 found
    obtain ⟨scope, _, found⟩ := Outcome.bind_eq_ok.1 found
    obtain ⟨inner, groups, found⟩ := Outcome.bind_eq_ok.1 found
    cases found
    obtain ⟨own, inside, looked⟩ := Outcome.partner_right (Outcome.mapM_eq_ok_iff.1 groups) group
    refine groupFits_of_tolerated (fun s mem => free t known s (FieldGroup.mem_fields group mem))
      (FieldGroup.exists_variant group) looked fun f mem => ?_
    exact tolerated f (List.mem_append_right _ (List.mem_flatten.2 ⟨own, inside, mem⟩))

def person : NamedType where
  name := "person"
  fields := [
    { name := "name", type := .primitive .string, required := true },
    { name := "home", type := .primitive .string, warn := true },
    { name := "friends", type := .primitive .array, elementType := some (.named "person") }]

def acquainted : Registry where
  types := [person]

/-- A person one of whose friends has no proper name, with a key that no person has. -/
def ann : Entries :=
  [(.text "name", .text "Ann"), (.text "age", .int 40),
    (.text "friends", .list [.mapping [(.text "name", .int 5)], .mapping [(.text "name", .text "Bob")]])]

theorem ann_tolerated :
    (∀ t ∈ acquainted.types, ∀ f ∈ t.fields, f.conditions = []) ∧
      ∃ t fs, acquainted.find? "person" = some t ∧ acquainted.objectFindings ⟨[]⟩ t "author" ann = .ok fs ∧
        fs.map (fun f => (f.field, f.kind)) = [("author.age", .unknownField), ("author.home", .missingWarned),
          ("author.friends[0]", .typeMismatch), ("author.friends[1].home", .missingWarned)] ∧
        (acquainted.fits (.mapping ann) (.named "person") = true ↔ ∀ f ∈ fs, acquainted.Tolerated f) ∧
        ∀ f ∈ fs, acquainted.Tolerated f := by
  have free : ∀ t ∈ acquainted.types, ∀ f ∈ t.fields, f.conditions = [] := by decide
  have fits : acquainted.fits (.mapping ann) (.named "person") = true := by cbv
  have walked : (acquainted.objectFindings ⟨[]⟩ person "author" ann).map (List.map fun f => (f.field, f.kind)) =
      .ok [("author.age", .unknownField), ("author.home", .missingWarned),
        ("author.friends[0]", .typeMismatch), ("author.friends[1].home", .missingWarned)] := by cbv
  cases found : acquainted.objectFindings ⟨[]⟩ person "author" ann with
  | error f =>
    rw [found] at walked
    cases walked
  | ok fs =>
    rw [found] at walked
    have agrees := fits_iff_tolerated free (n := "person") rfl found
    exact ⟨free, _, fs, rfl, found, Except.ok.inj walked, agrees, agrees.1 fits⟩

end Registry
end VaultSchema
