import VaultSchema.Engine.Notes
import VaultSchema.Proofs.Engine.Duplicates

set_option autoImplicit false

namespace VaultSchema

open ViolationStore (own dup)

namespace Engine

variable {e : Engine} {d : Document}

def applying (e : Engine) (d : Document) : List Schema := e.schemaSet.schemas.filter (·.accepts d)

theorem mem_applying {s : Schema} :
    s ∈ e.applying d ↔ s ∈ e.schemaSet.schemas ∧ s.accepts d = true := List.mem_filter

theorem Sound.matching (sound : e.Sound) (mem : d ∈ e.notes.notes) :
    e.matching d = .ok (e.applying d) := Outcome.filterM_ok fun s inside => sound.tried s inside d mem

theorem removeSchemas_gives (id : String) (names : List String) :
    Gives (each (fun schema => onViolations fun v => v.removeNoteSchema id schema) names) e
      fun _ after => Keeps e after ∧ (e.violations.Tidy → after.violations.Tidy) ∧
        ∀ j, after.violations.ofNote j =
          if id = j then (e.violations.ofNote id).filter (fun v => !names.contains v.schema)
          else e.violations.ofNote j := by
  refine gives_each (fun done after => Keeps e after ∧ (e.violations.Tidy → after.violations.Tidy) ∧
    ∀ j, after.violations.ofNote j =
      if id = j then (e.violations.ofNote id).filter (fun v => !done.contains v.schema)
      else e.violations.ofNote j) ⟨.refl e, fun h => h, ?_⟩ ?_
  · intro j
    split
    · rename_i same
      subst same
      simp
    · rfl
  · rintro done schema _ _ now ⟨keeps, tidy, same⟩
    rw [gives_onViolations]
    refine ⟨keeps.onViolations _, fun h => (tidy h).removeNoteSchema _ _, ?_⟩
    intro j
    rw [ViolationStore.ofNote_removeNoteSchema]
    split
    · rw [same, if_pos rfl, List.filter_filter]
      refine List.filter_congr fun v _ => ?_
      rw [Bool.eq_iff_iff]
      simp [and_comm]
    · rename_i differ
      rw [same, if_neg differ]

theorem gives_recordResult {s : Schema} {p : Unit → Engine → Prop} :
    Gives (recordResult d s) e p ↔ ∃ vs, e.check d s = .ok vs ∧
      p () { e with violations := e.violations.setSchema d.id s.id vs } := by
  unfold recordResult
  simp only [gives_bind, gives_get, gives_ofCheck, gives_onViolations]

structure Recorded (found : Schema → List Violation) (id : String) (done : List Schema)
    (before after : ViolationStore) : Prop where
  tidy : before.Tidy → after.Tidy
  others : ∀ j, id ≠ j → after.ofNote j = before.ofNote j
  here : ∀ s ∈ done, own s.id (after.ofNote id) = found s
  apart : ∀ schema, (∀ s ∈ done, s.id ≠ schema) →
    own schema (after.ofNote id) = own schema (before.ofNote id)
  dups : ∀ schema field, dup schema field (after.ofNote id) = dup schema field (before.ofNote id)

theorem recordResults_gives {schemas : List Schema} (distinct : (schemas.map (·.id)).Nodup)
    (checks : ∀ s ∈ schemas, e.check d s = .ok (e.found d s)) :
    Gives (each (recordResult d) schemas) e fun _ after =>
      Keeps e after ∧ Recorded (e.found d) d.id schemas e.violations after.violations := by
  refine gives_each (fun done after => Keeps e after ∧
    Recorded (e.found d) d.id done e.violations after.violations)
    ⟨.refl e, fun h => h, fun _ _ => rfl, by simp, fun _ _ => rfl, fun _ _ => rfl⟩ ?_
  rintro done s rest all now ⟨keeps, recorded⟩
  have stamped := e.found_stamped d s
  have new : ∀ t ∈ done, t.id ≠ s.id := fun t => Text.key_ne_of_nodup (all ▸ distinct)
  rw [gives_recordResult]
  refine ⟨_, (keeps.alike.check d s).trans (checks s (by simp [all])), keeps.onViolations _, ?_⟩
  refine ⟨fun h => (recorded.tidy h).setSchema _ _ _, ?_, ?_, ?_, ?_⟩
  · intro j differ
    rw [ViolationStore.ofNote_setSchema, if_neg differ, recorded.others j differ]
  · intro t mem
    rw [ViolationStore.own_setSchema stamped]
    rcases List.mem_append.1 mem with mem | mem
    · rw [if_neg fun same => new t mem same.2.symm, recorded.here t mem]
    · rw [List.mem_singleton] at mem
      subst mem
      rw [if_pos ⟨rfl, rfl⟩]
  · intro schema none
    rw [ViolationStore.own_setSchema stamped, if_neg fun same => none s (by simp) same.2]
    exact recorded.apart schema fun t mem => none t (by simp [mem])
  · intro schema field
    rw [ViolationStore.dup_setSchema stamped, recorded.dups]

/-- What validation of a note changes. -/
structure Revised (e : Engine) (d : Document) (before after : ViolationStore) : Prop where
  tidy : before.Tidy → after.Tidy
  others : ∀ j, d.id ≠ j → after.ofNote j = before.ofNote j
  known : ∀ v ∈ after.ofNote d.id, ∃ s ∈ e.applying d, s.id = v.schema
  owns : ∀ s ∈ e.applying d, own s.id (after.ofNote d.id) = e.found d s
  dups : ∀ s ∈ e.applying d, ∀ field,
    dup s.id field (after.ofNote d.id) = dup s.id field (before.ofNote d.id)

theorem Revised.silent {before after : ViolationStore} (revised : Revised e d before after)
    (sound : e.Sound) {s : Schema} (mem : s ∈ e.schemaSet.schemas) (refuses : s.accepts d = false) :
    own s.id (after.ofNote d.id) = [] ∧ ∀ field, dup s.id field (after.ofNote d.id) = [] := by
  have none : ∀ v ∈ after.ofNote d.id, s.id ≠ v.schema := by
    intro v held schema
    obtain ⟨t, applied, id⟩ := revised.known v held
    obtain ⟨known, others⟩ := mem_applying.1 applied
    rw [sound.eq_of_id known mem (id.trans schema.symm), refuses] at others
    cases others
  constructor
  · refine List.eq_nil_iff_forall_not_mem.2 fun v its => ?_
    obtain ⟨held, schema, _⟩ := ViolationStore.mem_own.1 its
    exact none v held schema.symm
  · refine fun field => List.eq_nil_iff_forall_not_mem.2 fun v its => ?_
    obtain ⟨held, schema, _⟩ := ViolationStore.mem_dup.1 its
    exact none v held schema.symm

theorem validateFully_gives (sound : e.Sound) (mem : d ∈ e.notes.notes) :
    Gives (validateFully d) e fun applied after =>
      applied = e.applying d ∧ Keeps e after ∧ Revised e d e.violations after.violations := by
  have distinct : ((e.applying d).map (·.id)).Nodup :=
    List.Nodup.sublist (List.filter_sublist.map _) sound.schemas
  have checks : ∀ s ∈ e.applying d, e.check d s = .ok (e.found d s) := by
    intro s inside
    obtain ⟨known, accepts⟩ := mem_applying.1 inside
    exact sound.check known mem accepts
  unfold validateFully
  simp only [gives_bind, gives_get, gives_ofValue, gives_batched, gives_onCache, gives_pure]
  refine ⟨e.applying d, sound.matching mem, ?_⟩
  refine (removeSchemas_gives _ _).mono ?_
  rintro _ mid ⟨keeps, tidy, removed⟩
  have begun : Keeps e mid := ((Keeps.refl e).onViolations _).trans keeps
  have same : ∀ s, mid.found d s = e.found d s := fun s => begun.alike.found d s
  refine (recordResults_gives distinct fun s inside => ?_).mono ?_
  · rw [begun.alike.check, checks s inside, same]
  rintro _ after ⟨more, recorded⟩
  have kept := begun.trans more
  refine ⟨rfl, ⟨kept.options, kept.notes, kept.blobs, kept.index, kept.schemaSet,
    by simpa using kept.cached⟩, ?_, ?_, ?_, ?_, ?_⟩
  · exact fun h => (recorded.tidy (tidy h.beginBatch)).endBatch
  · intro j differ
    rw [ViolationStore.ofNote_endBatch, recorded.others j differ, removed, if_neg differ,
      ViolationStore.ofNote_beginBatch]
  · intro v held
    rw [ViolationStore.ofNote_endBatch] at held
    -- What no applying schema says now was said before, and was not dropped; so its schema applies after all.
    by_cases recent : ∃ s ∈ e.applying d, s.id = v.schema
    · exact recent
    · have none : ∀ s ∈ e.applying d, s.id ≠ v.schema := fun s inside id => recent ⟨s, inside, id⟩
      have before : v ∈ mid.violations.ofNote d.id :=
        ViolationStore.mem_of_slices held (recorded.apart _ none) (recorded.dups _ _)
      rw [removed, if_pos rfl, List.mem_filter, ViolationStore.ofNote_beginBatch] at before
      obtain ⟨there, kept⟩ := before
      simp only [List.contains_iff_mem, Bool.not_eq_true', ← Bool.not_eq_true, List.mem_filter,
        Text.mem_distinct, List.mem_map, not_and, not_not] at kept
      have kept := kept ⟨v, there, rfl⟩
      obtain ⟨s, inside, id⟩ := kept
      exact (none s inside id).elim
  · intro s inside
    rw [ViolationStore.ofNote_endBatch, recorded.here s inside, same]
  · intro s inside field
    rw [ViolationStore.ofNote_endBatch, recorded.dups, removed, if_pos rfl,
      ViolationStore.ofNote_beginBatch]
    refine ViolationStore.filter_apart (q := fun v => _) ?_ (e.violations.ofNote d.id)
    intro v about
    have schema : v.schema = s.id := by
      simp only [ViolationStore.isAbout, Bool.and_eq_true, beq_iff_eq] at about
      exact about.1.1
    have applies : s.id ∈ (e.applying d).map (·.id) := List.mem_map.2 ⟨s, inside, rfl⟩
    rw [← Bool.not_eq_true, List.contains_iff_mem, List.mem_filter, schema]
    rintro ⟨_, gone⟩
    rw [List.contains_iff_mem.2 applies] at gone
    cases gone

end Engine
end VaultSchema
