import VaultSchema.Proofs.Engine.Changes

/-! How the engine deals with a note that is new, changed, renamed or deleted, and with a schema
that is to be validated again: an engine that was exact before is exact for the notes as they are
now. -/

set_option autoImplicit false

namespace VaultSchema

open ViolationStore (own dup)

namespace Engine

variable {e : Engine} {s : Schema}

/-- The engine before a changed note is validated: all that is wrong concerns this note, or the
reports of schemas that apply to it or reported on it before. -/
structure Awaits (d : Document) (e : Engine) : Prop where
  tidy : e.violations.Tidy
  known : ∀ id, d.id ≠ id → ∀ v ∈ e.violations.ofNote id, ∃ s ∈ e.schemaSet.schemas, s.id = v.schema
  owns : ∀ s ∈ e.schemaSet.schemas, ∀ id, d.id ≠ id → own s.id (e.violations.ofNote id) = e.ownOf s id
  dups : ∀ s ∈ e.schemaSet.schemas, s.accepts d = false → s.id ∉ e.duplicateSchemas d.id →
    ∀ id, d.id ≠ id → ∀ field, dup s.id field (e.violations.ofNote id) = e.reportOf s id field
  mutes : ∀ s ∈ e.schemaSet.schemas, Mute s → ∀ id field,
    dup s.id field (e.violations.ofNote id) = []

theorem validateChanged_gives {d : Document} (awaits : e.Awaits d) (sound : e.Sound)
    (mem : d ∈ e.notes.notes) :
    Gives (do
      let applied ← validateFully d
      each rescan ((← get).schemaSet.schemas.filter fun s => s.hasUniqueFields &&
        ((applied.map (·.id)).contains s.id || (e.duplicateSchemas d.id).contains s.id)))
      e fun _ after => Keeps e after ∧ after.Exact := by
  simp only [gives_bind, gives_get]
  refine (validateFully_gives sound mem).mono ?_
  rintro _ mid ⟨rfl, keeps, revised⟩
  have same : Alike e mid := keeps.alike
  -- Only schemas that can report and that the change concerns may now be wrong on other notes.
  have but : mid.ExactBut fun s =>
      ¬ Mute s ∧ (s.accepts d = true ∨ s.id ∈ e.duplicateSchemas d.id) := by
    unfold ExactBut
    rw [same.schemaSet]
    refine revised.exactFor sound mem same awaits.tidy awaits.known
      (fun s inside id this _ => awaits.owns s inside id this) ?_
    intro s inside notDue id this field
    by_cases mute : Mute s
    · rw [reportOf_mute mute]
      exact awaits.mutes s inside mute id field
    · obtain ⟨refuses, notReported⟩ : s.accepts d = false ∧ s.id ∉ e.duplicateSchemas d.id := by
        simpa [mute] using notDue
      have other : d.id ≠ id := this.resolve_right fun accepts => by simp [refuses] at accepts
      exact awaits.dups s inside refuses notReported id other field
  refine (but.rescans_gives (sound.keeps keeps) ?_ ?_ ?_).mono ?_
  · exact fun s inside => List.mem_of_mem_filter inside
  · exact fun s _ mute due => due.1 mute
  · rintro s inside ⟨busy, due⟩
    rw [List.mem_filter]
    refine ⟨inside, ?_⟩
    rw [same.schemaSet] at inside
    have unique : s.hasUniqueFields = true := by
      unfold Mute at busy
      simp only [Bool.or_eq_true, Bool.not_eq_true', not_or, Bool.not_eq_false] at busy
      exact busy.1
    rw [unique, Bool.true_and, Bool.or_eq_true, List.contains_iff_mem, List.contains_iff_mem]
    refine due.imp ?_ fun reported => reported
    exact fun accepts => List.mem_map.2 ⟨s, mem_applying.2 ⟨inside, accepts⟩, rfl⟩
  · rintro _ after ⟨more, exact⟩
    exact ⟨keeps.trans more, exact⟩

theorem noteChanged_gives {d : Document} (awaits : e.Awaits d)
    (sound : { e with index := e.index.update d }.Sound) (mem : d ∈ e.notes.notes) :
    Gives (noteChanged d) e fun _ after =>
      Keeps { e with index := e.index.update d } after ∧ after.Exact := by
  have ready : { e with index := e.index.update d }.Awaits d :=
    ⟨awaits.tidy, awaits.known, awaits.owns, awaits.dups, awaits.mutes⟩
  unfold noteChanged
  rw [gives_bind, gives_get, gives_bind, gives_onIndex]
  exact validateChanged_gives ready sound mem

theorem reports_of_not_reported (exact : e.Exact) {id : String} (mem : s ∈ e.schemaSet.schemas)
    (none : s.id ∉ e.duplicateSchemas id) (field : String) : e.reportOf s id field = [] := by
  rw [← exact.dup_eq mem]
  by_contra some
  exact none (mem_duplicateSchemas.2 ⟨field, some⟩)

theorem Exact.changed (exact : e.Exact) (distinct : e.notes.Distinct) (d : Document) :
    { e with notes := e.notes.put d }.Awaits d := by
  refine ⟨exact.tidy, fun id _ => exact.known id, ?_, ?_, ?_⟩
  · intro s mem id differ
    rw [exact.own_eq mem]
    unfold ownOf
    rw [NoteStore.find?_put, if_neg differ]
    rfl
  · intro s mem refuses notReported id differ field
    refine (exact.dup_eq mem id field).trans (Eq.symm ?_)
    exact reportOf_without distinct (distinct.put d) (fun c => mem_chosen_put rfl refuses)
      (reports_of_not_reported exact mem notReported) differ.symm field
  · intro s mem mute id field
    refine (exact.dup_eq mem id field).trans (reportOf_mute mute id field)

theorem Exact.renamed (exact : e.Exact) (distinct : e.notes.Distinct) (old : String) {d : Document}
    (new : e.notes.find? d.id = none) (x : StoredIndex) (c : Option Cache) :
    { e with
      notes := (e.notes.without old).put d
      index := x
      cache := c
      violations := e.violations.rename old d.id }.Awaits d := by
  have unused : e.violations.ofNote d.id = [] := exact.ofNote_eq_nil new
  have moved := ViolationStore.ofNote_rename unused old
  refine ⟨exact.tidy.rename _ _, ?_, ?_, ?_, ?_⟩
  · intro id differ v held
    dsimp only at held
    rw [moved, if_neg differ] at held
    split at held
    · cases held
    · exact exact.known id v held
  · intro s mem id differ
    dsimp only
    rw [moved, if_neg differ]
    unfold ownOf
    rw [NoteStore.find?_put, if_neg differ, NoteStore.find?_without]
    split
    · rfl
    · exact exact.own_eq mem id
  · intro s mem refuses notReported id differ field
    -- Reports go with the note, so a schema that has none at the new path had none at the old one.
    have alone : s.id ∉ e.duplicateSchemas old := by
      rw [mem_duplicateSchemas] at notReported ⊢
      rintro ⟨field, some⟩
      refine notReported ⟨field, ?_⟩
      dsimp only
      rw [moved, if_pos rfl, ViolationStore.dup_moved, ne_eq, List.map_eq_nil_iff]
      exact some
    dsimp only
    rw [moved, if_neg differ]
    split
    · rename_i here
      refine (reportOf_not_chosen ?_ field).symm
      intro c chosen
      rcases NoteStore.mem_put.1 (mem_chosen.1 chosen).1 with rfl | inside
      · exact differ
      · exact here ▸ (NoteStore.mem_without.1 inside.1).2
    · rename_i apart
      refine (exact.dup_eq mem id field).trans (Eq.symm ?_)
      refine reportOf_without distinct ((distinct.without old).put d) (fun c => ?_)
        (reports_of_not_reported exact mem alone) (Ne.symm apart) field
      rw [mem_chosen_put (e := { e with notes := e.notes.without old }) rfl refuses,
        mem_chosen_without (e := e) rfl]
      refine and_iff_left_of_imp fun both => ?_
      exact NoteStore.find?_eq_none_iff.1 new c (mem_chosen.1 both.1).1
  · intro s mem mute id field
    have none : ∀ id, dup s.id field (e.violations.ofNote id) = [] := fun id =>
      (exact.dup_eq mem id field).trans (reportOf_mute mute id field)
    dsimp only
    rw [moved]
    split
    · rw [ViolationStore.dup_moved, none]
      rfl
    · split
      · rfl
      · exact none id

theorem Exact.deleted (exact : e.Exact) (distinct : e.notes.Distinct) (id : String)
    (x : StoredIndex) (c : Option Cache) :
    { e with
      notes := e.notes.without id
      index := x
      cache := c
      violations := e.violations.removeNote id }.ExactBut fun s => s.id ∈ e.duplicateSchemas id := by
  have removed := ViolationStore.ofNote_removeNote e.violations id
  refine ⟨exact.tidy.removeNote _, ?_, ?_, ?_⟩
  · intro j v held
    dsimp only at held
    rw [removed] at held
    split at held
    · cases held
    · exact exact.known j v held
  · intro s mem j _
    dsimp only
    rw [removed]
    unfold ownOf
    rw [NoteStore.find?_without]
    split
    · rfl
    · exact exact.own_eq mem j
  · intro s mem notReported j field
    dsimp only
    rw [removed]
    split
    · rename_i here
      refine (reportOf_not_chosen ?_ field).symm
      intro c chosen
      exact here ▸ (NoteStore.mem_without.1 (mem_chosen.1 chosen).1).2
    · rename_i apart
      refine (exact.dup_eq mem j field).trans (Eq.symm ?_)
      exact reportOf_without distinct (distinct.without id) (fun c => mem_chosen_without rfl)
        (reports_of_not_reported exact mem notReported) (Ne.symm apart) field

theorem noteDeleted_gives (exact : e.Exact) (distinct : e.notes.Distinct) (id : String)
    (sound : { e with notes := e.notes.without id, index := e.index.remove id }.Sound) :
    Gives (noteDeleted id) { e with notes := e.notes.without id } fun _ after =>
      Keeps { e with notes := e.notes.without id, index := e.index.remove id } after ∧ after.Exact := by
  have but := exact.deleted distinct id (e.index.remove id) (e.cache.map (·.remove id))
  have keeps : Keeps { e with notes := e.notes.without id, index := e.index.remove id }
      { e with
        notes := e.notes.without id
        index := e.index.remove id
        cache := e.cache.map (·.remove id)
        violations := e.violations.removeNote id } :=
    ⟨rfl, rfl, rfl, rfl, rfl, by simp⟩
  unfold noteDeleted
  simp only [gives_bind, gives_get, gives_onIndex, gives_onViolations, gives_onCache]
  refine (but.rescans_gives (sound.keeps keeps) ?_ ?_ ?_).mono ?_
  · intro s mem
    obtain ⟨schema, _, look⟩ := List.mem_filterMap.1 mem
    exact List.mem_of_find?_eq_some look
  · intro s mem mute reported
    obtain ⟨schema, _, look⟩ := List.mem_filterMap.1 mem
    obtain ⟨field, some⟩ := mem_duplicateSchemas.1 reported
    exact some ((exact.dup_eq (List.mem_of_find?_eq_some look) id field).trans
      (reportOf_mute mute id field))
  · intro s mem reported
    exact List.mem_filterMap.2 ⟨s.id, reported, sound.find? mem⟩
  · rintro _ after ⟨more, exact⟩
    exact ⟨keeps.trans more, exact⟩

theorem revalidate_gives (exact : e.Exact) (sound : e.Sound) (id : String) :
    Gives (revalidate id) e fun _ after => Keeps e after ∧ after.Exact := by
  have keeps : Keeps e { e with
      violations := e.violations.removeSchema id
      cache := e.cache.map fun c => (c.invalidate id).1 } := ⟨rfl, rfl, rfl, rfl, rfl, by simp⟩
  have removed : ∀ j, (e.violations.removeSchema id).ofNote j =
      (e.violations.ofNote j).filter (·.schema != id) :=
    fun j => exact.tidy.ofNote_removeWhere _ j
  -- Without what the schema has said, the engine is exact for the other schemas.
  have rest : ExactFor (e.schemaSet.schemas.filter (·.id != id)) (fun _ => True) (fun _ => False) { e with
      violations := e.violations.removeSchema id
      cache := e.cache.map fun c => (c.invalidate id).1 } := by
    refine ⟨exact.tidy.removeWhere _, ?_, ?_, ?_⟩
    · intro j v held
      dsimp only at held
      rw [removed, List.mem_filter] at held
      obtain ⟨s, mem, schema⟩ := exact.known j v held.1
      exact ⟨s, List.mem_filter.2 ⟨mem, schema ▸ held.2⟩, schema⟩
    · intro s mem j _
      obtain ⟨mem, other⟩ := List.mem_filter.1 mem
      dsimp only
      rw [removed, ViolationStore.own_filter_schema, if_neg (Ne.symm (bne_iff_ne.1 other))]
      exact exact.own_eq mem j
    · intro s mem _ j field
      obtain ⟨mem, other⟩ := List.mem_filter.1 mem
      dsimp only
      rw [removed, ViolationStore.dup_filter_schema, if_neg (Ne.symm (bne_iff_ne.1 other))]
      exact exact.dup_eq mem j field
  unfold revalidate
  simp only [gives_bind, gives_get, gives_onViolations, gives_onCache]
  cases look : e.schemaSet.find? id with
  | none =>
    refine ⟨keeps, rest.of_mem fun s => ?_⟩
    rw [List.mem_filter]
    refine ⟨fun mem => ⟨mem, ?_⟩, fun both => both.1⟩
    have := List.find?_eq_none.1 look s mem
    simpa using this
  | some s =>
    have mem : s ∈ e.schemaSet.schemas := List.mem_of_find?_eq_some look
    obtain rfl : s.id = id := by simpa using List.find?_some look
    dsimp only
    rw [gives_discard]
    refine (rest.validateSchema_gives (sound.keeps keeps) mem ?_).mono ?_
    · intro t inside
      exact bne_iff_ne.1 (List.mem_filter.1 inside).2
    · rintro r after ⟨_, more, now⟩
      refine ⟨keeps.trans more, now.of_mem fun t => ?_⟩
      rw [more.schemaSet, List.mem_append, List.mem_filter, List.mem_singleton, bne_iff_ne]
      constructor
      · intro inside
        by_cases same : t.id = s.id
        · exact Or.inr (sound.eq_of_id inside mem same)
        · exact Or.inl ⟨inside, same⟩
      · rintro (inside | rfl)
        · exact inside.1
        · exact mem

end Engine

end VaultSchema
