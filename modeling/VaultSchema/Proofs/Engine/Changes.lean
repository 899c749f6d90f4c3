import VaultSchema.Engine.Session
import VaultSchema.Proofs.Engine.Notes
import VaultSchema.Proofs.Engine.Pass

/-! Changes of notes. A change of one note alters what schemas say of this note, and the reports on
others only for schemas that apply to it now or that reported on it before; these are the ones that
are rescanned. So an exact engine is exact again after every change. -/

set_option autoImplicit false

namespace VaultSchema

open ViolationStore (own dup Observed)
open Observation (report)

namespace Engine

variable {e f : Engine} {s : Schema}

theorem ExactFor.exact {due : Schema → Prop} (h : e.ExactBut due)
    (none : ∀ s ∈ e.schemaSet.schemas, ¬ due s) : e.Exact :=
  ⟨h.tidy, h.known, h.owns, fun s mem _ => h.dups s mem (none s mem)⟩

theorem Exact.but (h : e.Exact) (due : Schema → Prop) : e.ExactBut due :=
  ⟨h.tidy, h.known, h.owns, fun _ mem _ => h.dup_eq mem⟩

/-- A rescan computes the reports of a schema anew. Schemas that can have no reports are never due. -/
theorem ExactFor.rescan_gives {due : Schema → Prop} (h : e.ExactBut due) (sound : e.Sound)
    (mem : s ∈ e.schemaSet.schemas) (mute : Mute s → ¬ due s) :
    Gives (rescan s) e fun _ after => Keeps e after ∧ after.ExactBut fun t => due t ∧ t ≠ s := by
  -- A schema that cannot report is not scanned, and so it must not have been due.
  by_cases silent : Mute s
  · rw [gives_rescan_mute silent]
    refine ⟨.refl e, h.tidy, h.known, h.owns, fun t inside notDue => h.dups t inside ?_⟩
    intro tDue
    by_cases same : t = s
    · subst same
      exact mute silent tDue
    · exact notDue ⟨tDue, same⟩
  · refine (Engine.rescan_gives sound mem h.tidy silent).mono ?_
    rintro _ after ⟨keeps, observed⟩
    refine ⟨keeps, observed.tidy, ?_, ?_, ?_⟩
    · intro id v held
      rw [keeps.schemaSet]
      by_cases its : s.id = v.schema
      · exact ⟨s, mem, its⟩
      · exact h.known id v (ViolationStore.mem_of_slices held (observed.owns _ _)
          ((observed.dups _ _ _).trans (if_neg its)))
    · intro t inside id done
      rw [keeps.schemaSet] at inside
      rw [observed.owns, keeps.alike.ownOf, h.owns t inside id done]
    · intro t inside notDue id field
      rw [keeps.schemaSet] at inside
      rw [observed.dups, keeps.alike.reportOf]
      split
      · rename_i same
        rw [sound.eq_of_id mem inside same]
        rfl
      · rename_i differ
        refine h.dups t inside (fun tDue => notDue ⟨tDue, ?_⟩) id field
        rintro rfl
        exact differ rfl

theorem ExactFor.rescans_gives {due : Schema → Prop} (h : e.ExactBut due) (sound : e.Sound)
    {schemas : List Schema} (mem : ∀ s ∈ schemas, s ∈ e.schemaSet.schemas)
    (mute : ∀ s ∈ schemas, Mute s → ¬ due s) (all : ∀ s ∈ e.schemaSet.schemas, due s → s ∈ schemas) :
    Gives (each rescan schemas) e fun _ after => Keeps e after ∧ after.Exact := by
  refine (gives_each (fun done after => Keeps e after ∧ after.ExactBut fun t => due t ∧ t ∉ done)
    ⟨.refl e, ?_⟩ ?_).mono ?_
  · simpa using h
  · rintro done s rest split now ⟨keeps, but⟩
    have inside : s ∈ now.schemaSet.schemas := by
      rw [keeps.schemaSet]
      exact mem s (by simp [split])
    refine (but.rescan_gives (sound.keeps keeps) inside fun silent h =>
      mute s (by simp [split]) silent h.1).mono ?_
    rintro _ after ⟨more, still⟩
    refine ⟨keeps.trans more, ?_⟩
    have same : (fun t => (due t ∧ t ∉ done) ∧ t ≠ s) = fun t => due t ∧ t ∉ done ++ [s] := by
      funext t
      simp [and_assoc]
    rwa [← same]
  · rintro _ after ⟨keeps, but⟩
    refine ⟨keeps, but.exact fun s inside h => h.2 (all s ?_ h.1)⟩
    rwa [keeps.schemaSet] at inside

theorem mem_duplicateSchemas {id schema : String} :
    schema ∈ e.duplicateSchemas id ↔ ∃ field, dup schema field (e.violations.ofNote id) ≠ [] := by
  unfold duplicateSchemas
  simp only [Text.mem_distinct, List.mem_map, List.mem_filter, beq_iff_eq, List.ne_nil_iff_exists_cons]
  constructor
  · rintro ⟨v, ⟨mem, kind⟩, rfl⟩
    have inside : v ∈ dup v.schema v.field (e.violations.ofNote id) :=
      ViolationStore.mem_dup.2 ⟨mem, rfl, rfl, kind⟩
    refine ⟨v.field, ?_⟩
    cases vs : dup v.schema v.field (e.violations.ofNote id) with
    | nil => rw [vs] at inside; cases inside
    | cons w ws => exact ⟨w, ws, rfl⟩
  · rintro ⟨field, v, vs, all⟩
    have inside : v ∈ dup schema field (e.violations.ofNote id) := by simp [all]
    obtain ⟨mem, rfl, _, kind⟩ := ViolationStore.mem_dup.1 inside
    exact ⟨v, ⟨mem, kind⟩, rfl⟩

theorem reportOf_not_chosen {id : String} (none : ∀ d ∈ e.chosen s, d.id ≠ id) (field : String) :
    e.reportOf s id field = [] := by
  refine Observation.report_of_none ?_
  rw [List.find?_eq_none]
  intro o mem
  obtain ⟨d, inside, mem⟩ := List.mem_flatMap.1 mem
  have note := Schema.note_of_observations mem
  simp [note, none d inside]

/-- A note on which nothing is wrong but what validation of it renews. -/
theorem Revised.exactFor {d : Document} {after : Engine} {ready : String → Prop} {due : Schema → Prop}
    (revised : Revised e d e.violations after.violations) (sound : e.Sound) (mem : d ∈ e.notes.notes)
    (same : Alike e after) (tidy : e.violations.Tidy)
    (known : ∀ id, d.id ≠ id → ∀ v ∈ e.violations.ofNote id, ∃ s ∈ e.schemaSet.schemas, s.id = v.schema)
    (owns : ∀ s ∈ e.schemaSet.schemas, ∀ id, d.id ≠ id → ready id →
      own s.id (e.violations.ofNote id) = e.ownOf s id)
    (dups : ∀ s ∈ e.schemaSet.schemas, ¬ due s → ∀ id, d.id ≠ id ∨ s.accepts d = true →
      ∀ field, dup s.id field (e.violations.ofNote id) = e.reportOf s id field) :
    after.ExactFor e.schemaSet.schemas ready due := by
  have here : e.notes.find? d.id = some d := (NoteStore.has_iff sound.notes).2 mem
  refine ⟨revised.tidy tidy, ?_, ?_, ?_⟩
  · intro id v held
    by_cases this : d.id = id
    · subst this
      obtain ⟨s, inside, schema⟩ := revised.known v held
      exact ⟨s, (mem_applying.1 inside).1, schema⟩
    · rw [revised.others id this] at held
      exact known id this v held
  · intro s inside id done
    rw [same.ownOf]
    by_cases this : d.id = id
    · subst this
      unfold ownOf
      rw [here]
      cases accepts : s.accepts d with
      | true => simpa [accepts] using revised.owns s (mem_applying.2 ⟨inside, accepts⟩)
      | false => simpa [accepts] using (revised.silent sound inside accepts).1
    · rw [revised.others id this]
      exact owns s inside id this done
  · intro s inside notDue id field
    rw [same.reportOf]
    by_cases this : d.id = id
    · subst this
      cases accepts : s.accepts d with
      | true =>
        rw [revised.dups s (mem_applying.2 ⟨inside, accepts⟩)]
        exact dups s inside notDue d.id (Or.inr accepts) field
      | false =>
        -- The schema no longer selects the note, so no report on it is left to keep.
        rw [(revised.silent sound inside accepts).2, reportOf_not_chosen]
        intro c chosen same
        obtain ⟨there, applies⟩ := mem_chosen.1 chosen
        rw [NoteStore.eq_of_id_eq sound.notes there mem same, accepts] at applies
        cases applies
    · rw [revised.others id this]
      exact dups s inside notDue id (Or.inl this) field

theorem reportOf_without (distinct : e.notes.Distinct) (distinct' : f.notes.Distinct) {i : String}
    (left : ∀ d, d ∈ f.chosen s ↔ d ∈ e.chosen s ∧ d.id ≠ i)
    (alone : ∀ field, e.reportOf s i field = []) {j : String} (other : j ≠ i) (field : String) :
    f.reportOf s j field = e.reportOf s j field := by
  have same : f.chosen s = (e.chosen s).filter (·.id != i) := by
    refine Text.eq_of_ascending Document.id (chosen_strict distinct' s)
      ((chosen_strict distinct s).filter _) fun d => ?_
    rw [left, List.mem_filter, bne_iff_ne]
  have os : (f.chosen s).flatMap s.observations =
      ((e.chosen s).flatMap s.observations).filter (·.note != i) := by
    rw [same]
    generalize e.chosen s = ds
    induction ds with
    | nil => rfl
    | cons d ds ih =>
      have notes : ∀ o ∈ s.observations d, o.note = d.id := fun o => Schema.note_of_observations
      rw [List.flatMap_cons, List.filter_append, ← ih]
      by_cases gone : d.id = i
      · have none : (s.observations d).filter (·.note != i) = [] := by
          rw [List.filter_eq_nil_iff]
          intro o mem
          simp [notes o mem, gone]
        simp [none, gone]
      · have all : (s.observations d).filter (·.note != i) = s.observations d := by
          rw [List.filter_eq_self]
          intro o mem
          simp [notes o mem, gone]
        simp [all, gone]
  have once : Observation.Once ((e.chosen s).flatMap s.observations) := by
    refine s.once_observations (List.pairwise_map.2 ((chosen_strict distinct s).imp ?_))
    exact fun less => ne_of_lt less
  unfold reportOf
  rw [os]
  exact Observation.report_without once alone other field

theorem mem_chosen_put {d : Document} (put : f.notes = e.notes.put d) (refuses : s.accepts d = false)
    {c : Document} : c ∈ f.chosen s ↔ c ∈ e.chosen s ∧ c.id ≠ d.id := by
  rw [mem_chosen, mem_chosen, put, NoteStore.mem_put]
  constructor
  · rintro ⟨rfl | inside, accepts⟩
    · rw [refuses] at accepts
      cases accepts
    · exact ⟨⟨inside.1, accepts⟩, inside.2⟩
  · rintro ⟨⟨inside, accepts⟩, differ⟩
    exact ⟨Or.inr ⟨inside, differ⟩, accepts⟩

theorem mem_chosen_without {id : String} (without : f.notes = e.notes.without id) {c : Document} :
    c ∈ f.chosen s ↔ c ∈ e.chosen s ∧ c.id ≠ id := by
  rw [mem_chosen, mem_chosen, without, NoteStore.mem_without, and_right_comm]

theorem ExactFor.speaker {schemas : List Schema} (exact : e.ExactFor schemas (fun _ => True) fun _ => False)
    {id : String} {v : Violation} (held : v ∈ e.violations.ofNote id) :
    ∃ s ∈ schemas, s.id = v.schema ∧ ∃ d ∈ e.notes.notes, d.id = id ∧ s.accepts d = true := by
  obtain ⟨s, mem, schema⟩ := exact.known id v held
  refine ⟨s, mem, schema, ?_⟩
  by_contra silent
  have none : ∀ d ∈ e.chosen s, d.id ≠ id := fun d inside same =>
    silent ⟨d, (mem_chosen.1 inside).1, same, (mem_chosen.1 inside).2⟩
  refine List.not_mem_nil (ViolationStore.mem_of_slices held ?_ ?_)
  · rw [← schema, exact.owns s mem id trivial, ownOf_not_accepted none, ViolationStore.own_nil]
  · rw [← schema, exact.dups s mem (fun due => due), reportOf_not_chosen none, ViolationStore.dup_nil]

theorem Exact.speaker (exact : e.Exact) {id : String} {v : Violation} (held : v ∈ e.violations.ofNote id) :
    ∃ s ∈ e.schemaSet.schemas, s.id = v.schema ∧ ∃ d ∈ e.notes.notes, d.id = id ∧ s.accepts d = true :=
  ExactFor.speaker exact held

theorem Exact.ofNote_eq_nil (exact : e.Exact) {id : String} (gone : e.notes.find? id = none) :
    e.violations.ofNote id = [] := by
  refine List.eq_nil_iff_forall_not_mem.2 fun v held => ?_
  obtain ⟨_, _, _, d, mem, here, _⟩ := exact.speaker held
  exact NoteStore.find?_eq_none_iff.1 gone d mem here

end Engine
end VaultSchema
