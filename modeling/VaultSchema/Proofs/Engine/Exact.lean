import VaultSchema.Engine.Basic
import VaultSchema.Proofs.Note.Store
import VaultSchema.Proofs.Query.Selection
import VaultSchema.Proofs.Report.Slices
import VaultSchema.Proofs.Schema.Alone
import VaultSchema.Proofs.Schema.Uniqueness

/-! The violations that an engine should hold, by its notes, schemas and options alone. An engine
whose violations are exactly these is exact, and exact engines with the same notes, schemas and
options agree on every note. -/

set_option autoImplicit false

namespace VaultSchema

open ViolationStore (own dup Stamped)

def Schema.accepts (s : Schema) (d : Document) : Bool :=
  Outcome.yes (Engine.orNothing false (s.applies d))

def UniqueValues.scan (s : Schema) (seen : UniqueValues) : List Document → Except ValueFault Unit
  | [] => .ok ()
  | d :: rest => do
    let _ ← (seen.observe s d.id d.frontmatter).2
    scan s (seen.observe s d.id d.frontmatter).1 rest

namespace Engine

structure Keeps (e after : Engine) : Prop where
  options : after.options = e.options
  notes : after.notes = e.notes
  blobs : after.blobs = e.blobs
  index : after.index = e.index
  schemaSet : after.schemaSet = e.schemaSet
  cached : after.cache.isSome = e.cache.isSome

theorem Keeps.refl (e : Engine) : Keeps e e := ⟨rfl, rfl, rfl, rfl, rfl, rfl⟩

theorem Keeps.trans {a b c : Engine} (h : Keeps a b) (g : Keeps b c) : Keeps a c :=
  ⟨g.options.trans h.options, g.notes.trans h.notes, g.blobs.trans h.blobs, g.index.trans h.index,
    g.schemaSet.trans h.schemaSet, g.cached.trans h.cached⟩

theorem Keeps.onViolations {e after : Engine} (h : Keeps e after) (v : ViolationStore) :
    Keeps e { after with violations := v } :=
  ⟨h.options, h.notes, h.blobs, h.index, h.schemaSet, h.cached⟩

theorem Keeps.onCache {e after : Engine} (h : Keeps e after) (f : Cache → Cache) :
    Keeps e { after with cache := after.cache.map f } :=
  ⟨h.options, h.notes, h.blobs, h.index, h.schemaSet, by simpa using h.cached⟩

/-- Two engines have the same notes, schemas and options. -/
structure Alike (e f : Engine) : Prop where
  options : f.options = e.options
  notes : f.notes = e.notes
  schemaSet : f.schemaSet = e.schemaSet

theorem Keeps.alike {e after : Engine} (h : Keeps e after) : Alike e after :=
  ⟨h.options, h.notes, h.schemaSet⟩

theorem Alike.check {e f : Engine} (h : Alike e f) (d : Document) (s : Schema) :
    f.check d s = e.check d s := by
  unfold Engine.check
  rw [h.options, h.schemaSet]

theorem Keeps.selected {e after : Engine} (h : Keeps e after) (s : Schema) :
    after.selected s = e.selected s := by
  unfold Engine.selected catalog
  rw [h.notes, h.index]

def found (e : Engine) (d : Document) (s : Schema) : List Violation :=
  match e.check d s with
  | .ok vs => vs
  | .error _ => []

theorem found_of_check {e : Engine} {d : Document} {s : Schema} {vs : List Violation}
    (checked : e.check d s = .ok vs) : e.found d s = vs := by
  unfold found
  rw [checked]

theorem found_stamped (e : Engine) (d : Document) (s : Schema) : Stamped d.id s.id (e.found d s) := by
  unfold found
  cases checked : e.check d s with
  | error f => exact fun v mem => absurd mem List.not_mem_nil
  | ok vs =>
    obtain ⟨all, validated, checked⟩ := Outcome.bind_eq_ok.1 checked
    have alone := Registry.validate_alone validated
    cases checked
    intro v mem
    dsimp only at mem
    split at mem
    · exact alone v (List.mem_of_mem_filter mem)
    · exact alone v mem

/-- What a schema should say of the note under a path. -/
def ownOf (e : Engine) (s : Schema) (id : String) : List Violation :=
  match e.notes.find? id with
  | none => []
  | some d => if s.accepts d then e.found d s else []

/-- The notes of which a schema has to speak, in the order of paths. -/
def chosen (e : Engine) (s : Schema) : List Document := e.notes.listed.filter s.accepts

/-- What should be reported on a field of the note under a path. -/
def reportOf (e : Engine) (s : Schema) (id field : String) : List Violation :=
  Observation.report s.id ((e.chosen s).flatMap s.observations) id field

/-- The violations are those that some schemas should have, but for what they say themselves of notes
that are not ready, and for reports that are due to be computed anew. -/
structure ExactFor (schemas : List Schema) (ready : String → Prop) (due : Schema → Prop)
    (e : Engine) : Prop where
  tidy : e.violations.Tidy
  known : ∀ id, ∀ v ∈ e.violations.ofNote id, ∃ s ∈ schemas, s.id = v.schema
  owns : ∀ s ∈ schemas, ∀ id, ready id → own s.id (e.violations.ofNote id) = e.ownOf s id
  dups : ∀ s ∈ schemas, ¬ due s → ∀ id field,
    dup s.id field (e.violations.ofNote id) = e.reportOf s id field

abbrev ExactBut (due : Schema → Prop) (e : Engine) : Prop :=
  e.ExactFor e.schemaSet.schemas (fun _ => True) due

/-- The violations are those that they should be. -/
def Exact (e : Engine) : Prop := e.ExactBut fun _ => False

theorem Exact.own_eq {e : Engine} (h : e.Exact) {s : Schema} (mem : s ∈ e.schemaSet.schemas)
    (id : String) : own s.id (e.violations.ofNote id) = e.ownOf s id :=
  h.owns s mem id trivial

theorem Exact.dup_eq {e : Engine} (h : e.Exact) {s : Schema} (mem : s ∈ e.schemaSet.schemas)
    (id field : String) : dup s.id field (e.violations.ofNote id) = e.reportOf s id field :=
  h.dups s mem not_false id field

section exactFor

variable {schemas : List Schema} {ready : String → Prop} {due : Schema → Prop}

theorem ExactFor.unknown {e : Engine} (h : e.ExactFor schemas ready due)
    {schema : String} (none : ∀ s ∈ schemas, s.id ≠ schema) (id : String) :
    own schema (e.violations.ofNote id) = [] ∧
      ∀ field, dup schema field (e.violations.ofNote id) = [] := by
  constructor
  · refine List.eq_nil_iff_forall_not_mem.2 fun v mem => ?_
    obtain ⟨held, rfl, _⟩ := ViolationStore.mem_own.1 mem
    obtain ⟨s, inside, same⟩ := h.known id v held
    exact none s inside same
  · refine fun field => List.eq_nil_iff_forall_not_mem.2 fun v mem => ?_
    obtain ⟨held, rfl, _⟩ := ViolationStore.mem_dup.1 mem
    obtain ⟨s, inside, same⟩ := h.known id v held
    exact none s inside same

theorem Alike.found {e f : Engine} (h : Alike e f) (d : Document) (s : Schema) :
    f.found d s = e.found d s := by
  unfold Engine.found
  rw [h.check]

theorem Alike.ownOf {e f : Engine} (h : Alike e f) (s : Schema) (id : String) :
    f.ownOf s id = e.ownOf s id := by
  unfold Engine.ownOf
  simp only [h.notes, h.found]

theorem Alike.reportOf {e f : Engine} (h : Alike e f) (s : Schema) (id field : String) :
    f.reportOf s id field = e.reportOf s id field := by
  unfold Engine.reportOf chosen
  rw [h.notes]

theorem ExactFor.same {e f : Engine} (h : e.ExactFor schemas ready due) (same : Alike e f)
    (tidy : f.violations.Tidy) (held : ∀ id, f.violations.ofNote id = e.violations.ofNote id) :
    f.ExactFor schemas ready due := by
  refine ⟨tidy, ?_, ?_, ?_⟩
  · intro id
    rw [held]
    exact h.known id
  · intro s mem id done
    rw [held, same.ownOf, h.owns s mem id done]
  · intro s mem notDue id field
    rw [held, same.reportOf, h.dups s mem notDue]

theorem ExactFor.congr {e f : Engine} (h : e.ExactFor schemas ready due)
    (same : Alike e f) (rows : f.violations.byNote = e.violations.byNote) :
    f.ExactFor schemas ready due :=
  h.same same (h.tidy.congr rows) fun id => ViolationStore.ofNote_congr rows id

theorem ExactFor.of_mem {others : List Schema} {e : Engine} (h : e.ExactFor schemas ready due)
    (same : ∀ s, s ∈ others ↔ s ∈ schemas) : e.ExactFor others ready due := by
  refine ⟨h.tidy, ?_, fun s mem => h.owns s ((same s).1 mem), fun s mem => h.dups s ((same s).1 mem)⟩
  intro id v held
  obtain ⟨s, mem, schema⟩ := h.known id v held
  exact ⟨s, (same s).2 mem, schema⟩

end exactFor

theorem Exact.congr {e f : Engine} (h : e.Exact) (same : Alike e f)
    (rows : f.violations.byNote = e.violations.byNote) : f.Exact := by
  unfold Exact ExactBut
  rw [same.schemaSet]
  exact ExactFor.congr h same rows

/-- Exact engines with the same notes, schemas and options hold the same violations of every note,
perhaps in another order. -/
theorem Exact.perm {e f : Engine} (he : e.Exact) (hf : f.Exact) (same : Alike e f) (id : String) :
    (e.violations.ofNote id).Perm (f.violations.ofNote id) := by
  refine ViolationStore.perm_of_slices ?_ ?_
  · intro schema
    by_cases known : ∃ s ∈ e.schemaSet.schemas, s.id = schema
    · obtain ⟨s, mem, rfl⟩ := known
      rw [he.own_eq mem, hf.own_eq (by rw [same.schemaSet]; exact mem), same.ownOf]
    · have none : ∀ s ∈ e.schemaSet.schemas, s.id ≠ schema := fun s mem id => known ⟨s, mem, id⟩
      rw [(he.unknown none id).1, (hf.unknown (by rw [same.schemaSet]; exact none) id).1]
  · intro schema field
    by_cases known : ∃ s ∈ e.schemaSet.schemas, s.id = schema
    · obtain ⟨s, mem, rfl⟩ := known
      rw [he.dup_eq mem, hf.dup_eq (by rw [same.schemaSet]; exact mem), same.reportOf]
    · have none : ∀ s ∈ e.schemaSet.schemas, s.id ≠ schema := fun s mem id => known ⟨s, mem, id⟩
      rw [(he.unknown none id).2, (hf.unknown (by rw [same.schemaSet]; exact none) id).2]

/-- Nothing faults: schemas can be tried on every note, selection gives just the notes to which a
schema applies, these can be checked and observed, and schemas have a fingerprint if it is needed. -/
structure Sound (e : Engine) : Prop where
  notes : e.notes.Distinct
  schemas : (e.schemaSet.schemas.map (·.id)).Nodup
  tried : ∀ s ∈ e.schemaSet.schemas, ∀ d ∈ e.notes.notes, ∃ b, orNothing false (s.applies d) = .ok b
  selects : ∀ s ∈ e.schemaSet.schemas, ∃ ds, e.selected s = .ok ds ∧
    ∀ d ∈ e.notes.notes, d ∈ ds ↔ s.accepts d = true
  checks : ∀ s ∈ e.schemaSet.schemas, ∀ d ∈ e.notes.notes, s.accepts d = true →
    ∃ vs, e.check d s = .ok vs
  observes : ∀ s ∈ e.schemaSet.schemas, UniqueValues.scan s {} (e.chosen s) = .ok ()
  fingerprints : e.cache.isSome → ∀ s ∈ e.schemaSet.schemas, s.enabled = true →
    ∃ digest, s.fingerprint e.schemaSet.registry = .ok digest

theorem chosen_strict {e : Engine} (h : e.notes.Distinct) (s : Schema) :
    (e.chosen s).Pairwise fun a b => a.id < b.id := (NoteStore.listed_strict h).filter _

theorem mem_chosen {e : Engine} {s : Schema} {d : Document} :
    d ∈ e.chosen s ↔ d ∈ e.notes.notes ∧ s.accepts d = true := by simp [chosen]

theorem selected_sound {e : Engine} {s : Schema} {ds : List Document} (selected : e.selected s = .ok ds) :
    ds.Pairwise (fun a b => a.id < b.id) ∧ ∀ d ∈ ds, d ∈ e.notes.notes := by
  unfold Engine.selected at selected
  cases result : e.catalog.selectFor s with
  | ok found =>
    rw [result] at selected
    cases selected
    obtain ⟨strict, all⟩ := Catalog.selectFor_sound result
    exact ⟨strict, fun d mem => NoteStore.mem_of_find? (all d mem).1⟩
  | error f =>
    rw [result] at selected
    cases f with
    | query _ =>
      cases selected
      simp
    | value _ => cases selected

theorem selects_of_covered {e : Engine} {s : Schema} (distinct : e.notes.Distinct)
    (covers : s.isIdle = true ∨ ∃ q, Query.read s.query = .ok q ∧ e.catalog.Covers q ∧
      TagIndex.Sortable (e.catalog.candidates q))
    (tried : ∀ d, ∃ b, s.applies d = .ok b) :
    ∃ ds, e.selected s = .ok ds ∧ ∀ d ∈ e.notes.notes, d ∈ ds ↔ s.accepts d = true := by
  have exact := Catalog.selectFor_exact covers
  unfold Engine.selected
  cases result : e.catalog.selectFor s with
  | ok found =>
    rw [result] at exact
    refine ⟨found, rfl, fun d mem => ?_⟩
    obtain ⟨b, applies⟩ := tried d
    have has : e.catalog.notes.Has d := (NoteStore.has_iff distinct).2 mem
    rw [exact d, and_iff_right has, Schema.accepts, applies, Except.ok.injEq]
    exact Iff.rfl
  | error f =>
    rw [result] at exact
    obtain ⟨d, _, fault⟩ := exact
    obtain ⟨b, applies⟩ := tried d
    rw [applies] at fault
    cases fault

theorem nodup_ids {ds : List Document} (strict : ds.Pairwise fun a b => a.id < b.id) :
    (ds.map (·.id)).Nodup :=
  List.pairwise_map.2 (strict.imp fun less => ne_of_lt less)

theorem Sound.selected {e : Engine} (h : e.Sound) {s : Schema} (mem : s ∈ e.schemaSet.schemas) :
    e.selected s = .ok (e.chosen s) := by
  obtain ⟨ds, selected, exact⟩ := h.selects s mem
  obtain ⟨strict, inside⟩ := selected_sound selected
  rw [selected]
  congr 1
  refine Text.eq_of_ascending Document.id strict (chosen_strict h.notes s) fun d => ?_
  rw [mem_chosen]
  exact ⟨fun mem => ⟨inside d mem, (exact d (inside d mem)).1 mem⟩, fun both => (exact d both.1).2 both.2⟩

theorem Sound.nodup_chosen {e : Engine} (h : e.Sound) (s : Schema) :
    ((e.chosen s).map (·.id)).Nodup := nodup_ids (chosen_strict h.notes s)

theorem Sound.check {e : Engine} (h : e.Sound) {s : Schema} (mem : s ∈ e.schemaSet.schemas)
    {d : Document} (inside : d ∈ e.notes.notes) (accepts : s.accepts d = true) :
    e.check d s = .ok (e.found d s) := by
  obtain ⟨vs, checked⟩ := h.checks s mem d inside accepts
  rw [checked, found_of_check checked]

theorem Sound.eq_of_id {e : Engine} (h : e.Sound) {s t : Schema} (hs : s ∈ e.schemaSet.schemas)
    (ht : t ∈ e.schemaSet.schemas) (same : s.id = t.id) : s = t :=
  List.inj_on_of_nodup_map h.schemas hs ht same

theorem Sound.find? {e : Engine} (h : e.Sound) {s : Schema} (mem : s ∈ e.schemaSet.schemas) :
    e.schemaSet.find? s.id = some s := by
  unfold SchemaSet.find?
  cases look : e.schemaSet.schemas.find? (·.id == s.id) with
  | none =>
    have := List.find?_eq_none.1 look s mem
    simp at this
  | some t =>
    have same : t.id = s.id := by simpa using List.find?_some look
    rw [h.eq_of_id (List.mem_of_find?_eq_some look) mem same]

theorem Sound.alike {e f : Engine} (h : e.Sound) (alike : Alike e f) (selected : ∀ s, f.selected s = e.selected s)
    (cached : f.cache.isSome → e.cache.isSome) : f.Sound := by
  obtain ⟨notes, schemas, tried, selects, checks, observes, fingerprints⟩ := h
  refine ⟨?_, ?_, ?_, ?_, ?_, ?_, ?_⟩
  · rwa [alike.notes]
  · rwa [alike.schemaSet]
  · rwa [alike.notes, alike.schemaSet]
  · rw [alike.schemaSet, alike.notes]
    simpa only [selected] using selects
  · rw [alike.schemaSet, alike.notes]
    simpa only [alike.check] using checks
  · rw [alike.schemaSet]
    unfold chosen at *
    rwa [alike.notes]
  · rw [alike.schemaSet]
    exact fun some => fingerprints (cached some)

/-- Soundness does not look at the violations, nor at the content of the cache. -/
theorem Sound.keeps {e after : Engine} (h : e.Sound) (keeps : Keeps e after) : after.Sound :=
  h.alike keeps.alike keeps.selected (by rw [keeps.cached]; exact id)

end Engine
end VaultSchema
