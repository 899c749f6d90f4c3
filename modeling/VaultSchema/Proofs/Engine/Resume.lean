import VaultSchema.Proofs.Engine.Reuse

/-! A start that reuses cached results. What is taken over is completed in three steps: stale
schemas are validated anew, then the notes that have changed, and at last the reports of the other
schemas are computed anew if any note has changed or gone. -/

set_option autoImplicit false

namespace VaultSchema.Engine

open ViolationStore (own dup)

variable {e : Engine} {k : Coverage} {ready : String → Prop} {due : Schema → Prop}

theorem removeNotes_gives (ids : List String) (tidy : e.violations.Tidy) (filed : e.violations.Filed)
    (none : ∀ id ∈ ids, e.violations.ofNote id = []) :
    Gives (each (fun id => onViolations (·.removeNote id)) ids) e fun _ after =>
      ∃ v : ViolationStore, after = { e with violations := v } ∧ v.Tidy ∧ v.Filed ∧
        ∀ id, v.ofNote id = e.violations.ofNote id := by
  refine gives_each (fun _ after => ∃ v : ViolationStore, after = { e with violations := v } ∧
    v.Tidy ∧ v.Filed ∧ ∀ id, v.ofNote id = e.violations.ofNote id)
    ⟨e.violations, rfl, tidy, filed, fun _ => rfl⟩ ?_
  rintro done id rest all _ ⟨v, rfl, tidy, filed, same⟩
  rw [gives_onViolations]
  refine ⟨v.removeNote id, rfl, tidy.removeNote id, filed.removeNote id, fun j => ?_⟩
  rw [ViolationStore.ofNote_removeNote]
  split
  · rename_i here
    subst here
    exact (none id (by simp [all])).symm
  · exact same j

theorem ExactFor.removeSchema {schemas : List Schema} {id : String} (exact : e.ExactFor schemas ready due)
    (keeping : Keeping k e) (new : ∀ t ∈ schemas, t.id ≠ id) :
    { e with violations := e.violations.removeSchema id }.ExactFor schemas ready due ∧
      Keeping k { e with violations := e.violations.removeSchema id } := by
  have same : ∀ j, (e.violations.removeSchema id).ofNote j = e.violations.ofNote j := by
    intro j
    unfold ViolationStore.removeSchema
    rw [exact.tidy.ofNote_removeWhere, List.filter_eq_self]
    intro v held
    obtain ⟨t, mem, schema⟩ := exact.known j v held
    have other : v.schema ≠ id := schema ▸ new t mem
    simpa using other
  have tidy : (e.violations.removeSchema id).Tidy := exact.tidy.removeWhere _
  refine ⟨exact.same ((Keeps.refl e).onViolations _).alike tidy same, ?_⟩
  exact (keeping.violations tidy (keeping.filed.removeWhere keeping.tidy _) (fun _ => False)
    fun j _ => same j).leave fun _ behind => behind.elim (fun h => h) False.elim

theorem revalidateStale_gives {ids : List String} {done : List Schema} {fresh : List Schema}
    (sound : e.Sound) (once : ids.Nodup)
    (exact : e.ExactFor (fresh ++ done) ready due) (keeping : Keeping (k.passes done) e)
    (sure : ∀ id, ¬ k.stray id) (admitted : ∀ d schema, Concerns e.schemaSet d schema → k.admits d schema)
    (new : ∀ t ∈ fresh ++ done, t.id ∉ ids) :
    Gives (revalidateStale none ids) e fun _ after => Keeps e after ∧ ∃ more : List Schema,
      (∀ t, t ∈ more ↔ t ∈ e.schemaSet.schemas ∧ t.id ∈ ids) ∧
        after.ExactFor (fresh ++ (done ++ more)) ready due ∧ Keeping (k.passes (done ++ more)) after := by
  -- On the schemas still to come; one that has had its pass joins those that are right already.
  induction ids generalizing e done with
  | nil =>
    refine ⟨.refl e, [], by simp, ?_, ?_⟩
    · simpa using exact
    · simpa using keeping
  | cons id rest ih =>
    obtain ⟨first, others⟩ := List.nodup_cons.1 once
    have keeps : Keeps e { e with violations := e.violations.removeSchema id } :=
      (Keeps.refl e).onViolations _
    have unsaid : ∀ t ∈ fresh ++ done, t.id ≠ id := fun t mem same => new t mem (by simp [same])
    obtain ⟨exact', keeping'⟩ := exact.removeSchema keeping unsaid
    rw [revalidateStale]
    simp only [gives_bind, gives_onViolations, gives_get]
    cases look : e.schemaSet.find? id with
    | none =>
      -- A schema that is declared no longer: nothing but its violations goes.
      have absent : ∀ t ∈ e.schemaSet.schemas, t.id ≠ id := by
        intro t mem
        simpa using List.find?_eq_none.1 look t mem
      refine (ih (sound.keeps keeps) others exact' keeping' admitted fun t mem inside =>
        new t mem (by simp [inside])).mono ?_
      rintro _ after ⟨more, schemas, all, finished⟩
      refine ⟨keeps.trans more, schemas, fun t => ?_, finished⟩
      rw [all, List.mem_cons]
      exact and_congr_right fun mem => by simp [absent t mem]
    | some s =>
      have mem : s ∈ e.schemaSet.schemas := List.mem_of_find?_eq_some look
      obtain rfl : s.id = id := by simpa using List.find?_some look
      dsimp only
      rw [gives_bind]
      refine ((exact'.validateSchema_gives (sound.keeps keeps) mem unsaid).and
        (keeping'.validateSchema (sound.keeps keeps) mem sure (fun d chosen =>
          admitted d s.id ⟨s, mem, (mem_chosen.1 chosen).2, rfl⟩) (exact'.quiet unsaid) none)).mono ?_
      rintro _ mid ⟨⟨rfl, more, now⟩, _, passed⟩
      rw [reached, reach_none] at passed
      rw [List.append_assoc] at now
      refine (ih (sound.keeps (keeps.trans more)) others now (passed.passes_append more.alike)
        (by rw [(keeps.trans more).schemaSet]; exact admitted) ?_).mono ?_
      · intro t inside later
        rw [← List.append_assoc] at inside
        rcases List.mem_append.1 inside with inside | inside
        · exact new t inside (by simp [later])
        · rw [List.mem_singleton] at inside
          exact first (inside ▸ later)
      · rintro _ after ⟨further, schemas, all, exact, keeping⟩
        refine ⟨(keeps.trans more).trans further, s :: schemas, fun t => ?_, ?_, ?_⟩
        · rw [List.mem_cons, all, (keeps.trans more).schemaSet, List.mem_cons]
          constructor
          · rintro (rfl | both)
            · exact ⟨mem, Or.inl rfl⟩
            · exact ⟨both.1, Or.inr both.2⟩
          · rintro ⟨inside, same | later⟩
            · exact Or.inl (sound.eq_of_id inside mem same)
            · exact Or.inr ⟨inside, later⟩
        · simpa using exact
        · simpa using keeping

theorem ExactFor.validateFully_gives {d : Document} (exact : e.ExactFor e.schemaSet.schemas ready due)
    (sound : e.Sound) (mem : d ∈ e.notes.notes) :
    Gives (validateFully d) e fun applied after => applied = e.applying d ∧ Keeps e after ∧
      after.ExactFor e.schemaSet.schemas (fun id => ready id ∨ id = d.id) due := by
  refine (Engine.validateFully_gives sound mem).mono ?_
  rintro applied after ⟨same, keeps, revised⟩
  refine ⟨same, keeps, revised.exactFor sound mem keeps.alike exact.tidy (fun id _ => exact.known id) ?_
    fun s inside notDue id _ => exact.dups s inside notDue id⟩
  intro s inside id this done
  exact exact.owns s inside id (done.resolve_right fun same => this same.symm)

def Coverage.validated (k : Coverage) (set : SchemaSet) (ids : List String) : Coverage :=
  { k with
    held := fun d => k.held d ∨ d.id ∈ ids
    lists := fun d schema =>
      d.id ∈ ids ∧ (Coverage.full set).lists d schema ∨ d.id ∉ ids ∧ k.lists d schema }

theorem validateById_gives {id : String} {d : Document} (here : e.notes.find? id = some d)
    (exact : e.ExactFor e.schemaSet.schemas ready due) (keeping : Keeping k e) (sound : e.Sound)
    (admitted : ∀ d schema, Concerns e.schemaSet d schema → k.admits d schema) :
    Gives (validateById id) e fun _ after => Keeps e after ∧
      after.ExactFor e.schemaSet.schemas (fun j => ready j ∨ j = id) due ∧
        Keeping (k.validated e.schemaSet [id]) after := by
  have mem := NoteStore.mem_of_find? here
  have id' := NoteStore.id_of_find? here
  subst id'
  unfold validateById
  simp only [gives_bind, gives_get, here, gives_discard]
  refine ((exact.validateFully_gives sound mem).and
    (keeping.validateFully sound mem (admitted d))).mono ?_
  rintro _ after ⟨⟨rfl, keeps, now⟩, _, entered⟩
  refine ⟨keeps, now, ?_⟩
  obtain ⟨c, cached, kept⟩ := entered.kept
  refine ⟨entered.tidy, entered.filed, c, cached, kept.writable, ?_, ?_, ?_, ?_, ?_, kept.signed⟩
  · exact fun id entry found sure => kept.dated id entry found fun stray => sure stray.1
  · exact fun id entry found sure live =>
      kept.current id entry found (fun stray => sure stray.1) fun behind => live behind.1
  · intro b inside held
    refine kept.held b inside (held.imp_right fun same => ?_)
    rw [keeps.notes] at inside
    exact NoteStore.eq_of_id_eq sound.notes inside mem (by simpa using same)
  · intro b inside schema lists
    refine kept.lists b inside schema ?_
    rw [keeps.notes] at inside
    rcases lists with ⟨same, concerns⟩ | ⟨other, lists⟩
    · obtain rfl := NoteStore.eq_of_id_eq sound.notes inside mem (by simpa using same)
      exact Or.inl ⟨rfl, concerns⟩
    · refine Or.inr ⟨?_, lists⟩
      rintro rfl
      exact other (by simp)
  · exact fun b inside entry found sure => kept.admits b inside entry found fun stray => sure stray.1

theorem validateByIds_gives {ids : List String} (there : ∀ id ∈ ids, ∃ d, e.notes.find? id = some d)
    (exact : e.ExactFor e.schemaSet.schemas ready due) (keeping : Keeping k e) (sound : e.Sound)
    (admitted : ∀ d schema, Concerns e.schemaSet d schema → k.admits d schema) :
    Gives (each validateById ids) e fun _ after => Keeps e after ∧
      after.ExactFor e.schemaSet.schemas (fun j => ready j ∨ j ∈ ids) due ∧
        Keeping (k.validated e.schemaSet ids) after := by
  refine gives_each (fun done after => Keeps e after ∧
    after.ExactFor e.schemaSet.schemas (fun j => ready j ∨ j ∈ done) due ∧
      Keeping (k.validated e.schemaSet done) after) ⟨.refl e, ?_, ?_⟩ ?_
  · exact ⟨exact.tidy, exact.known, fun s mem id done => exact.owns s mem id (by simpa using done),
      exact.dups⟩
  · refine keeping.relax { Coverage.Relaxes.refl _ with held := ?_, lists := ?_ }
    · exact fun d held => held.resolve_right List.not_mem_nil
    · exact fun d schema lists => (lists.resolve_left fun both => List.not_mem_nil both.1).2
  · rintro done id rest all now ⟨keeps, exact, keeping⟩
    obtain ⟨d, here⟩ := there id (by simp [all])
    rw [← keeps.schemaSet] at exact keeping
    rw [← keeps.notes] at here
    refine (validateById_gives here exact keeping (sound.keeps keeps)
      (by rw [keeps.schemaSet]; exact admitted)).mono ?_
    rintro _ after ⟨more, exact, keeping⟩
    rw [keeps.schemaSet] at exact keeping
    refine ⟨keeps.trans more, ⟨exact.tidy, exact.known, ?_, exact.dups⟩, keeping.relax
      { Coverage.Relaxes.refl _ with held := ?_, lists := ?_ }⟩
    · intro s mem j ready
      refine exact.owns s mem j ?_
      simpa [or_assoc] using ready
    · intro d held
      simpa [Coverage.validated, or_assoc] using held
    · intro d schema lists
      simp only [Coverage.validated, List.mem_append, List.mem_singleton, not_or] at lists ⊢
      rcases lists with ⟨old | new, full⟩ | ⟨⟨old, new⟩, lists⟩
      · by_cases new : d.id = id
        · exact Or.inl ⟨new, full⟩
        · exact Or.inr ⟨new, Or.inl ⟨old, full⟩⟩
      · exact Or.inl ⟨new, full⟩
      · exact Or.inr ⟨new, Or.inr ⟨old, lists⟩⟩

variable {o : Engine} {c read after : Cache} {a : Analysis}

theorem Keeps.ended {last : Engine} (keeps : Keeps e last) (exact : last.Exact)
    (keeping : Keeping (.full e.schemaSet) last) :
    Keeps e { last with violations := last.violations.mark.endBatch } ∧
      { last with violations := last.violations.mark.endBatch }.Settled := by
  have rows : last.violations.mark.endBatch.byNote = last.violations.byNote := by simp
  rw [← keeps.schemaSet] at keeping
  exact ⟨keeps.onViolations _, exact.congr ((Keeps.refl last).onViolations _).alike rows,
    keeping.congr ((Keeps.refl last).onViolations last.violations.mark.endBatch).alike rfl rows⟩

/-- When the notes that are to be validated are removed, nothing that was taken over is lost. -/
theorem Keeping.begun {v : ViolationStore} (h : Keeping (.reused e a) e) (tidy : v.Tidy) (filed : v.Filed)
    (same : ∀ id, v.ofNote id = e.violations.ofNote id) :
    Keeping ((Coverage.reused e a).passes []) { e with violations := v } := by
  refine (h.violations tidy filed (fun _ => False) fun id _ => same id).relax
    { Coverage.Relaxes.refl _ with
      behind := fun _ behind => behind.elim (fun h => h) False.elim
      lists := ?_
      printed := fun _ _ => trivial
      signs := fun _ _ => Or.inl trivial }
  rintro d schema (lists | ⟨s, inside, _⟩)
  · exact lists
  · cases inside

/-- What was taken over, stale schemas and changed notes are together all that the cache has to hold. -/
theorem Keeping.completed {last : Engine} {stale : List Schema}
    (h : Keeping (((Coverage.reused e a).passes stale).validated e.schemaSet a.notes) last)
    (all : ∀ t, t ∈ stale ↔ t ∈ e.schemaSet.schemas ∧ t.id ∈ a.schemas) :
    Keeping (.full e.schemaSet) last := by
  obtain ⟨c, cached, kept⟩ := h.kept
  refine ⟨h.tidy, h.filed, c, cached, kept.writable, kept.dated, kept.current, ?_, ?_, kept.admits, ?_⟩
  · exact fun d mem _ => kept.held d mem (Classical.em (d.id ∈ a.notes)).symm
  · intro d mem schema lists
    refine kept.lists d mem schema ?_
    by_cases changed : d.id ∈ a.notes
    · exact Or.inl ⟨changed, lists⟩
    · refine Or.inr ⟨changed, ?_⟩
      obtain ⟨s, inside, accepts, named⟩ := lists
      by_cases live : s.id ∈ a.schemas
      · exact Or.inr ⟨s, (all s).2 ⟨inside, live⟩, accepts, named⟩
      · exact Or.inl ⟨changed, s, mem_fresh.2 ⟨inside, live⟩, accepts, named⟩
  · exact kept.signed.relax (fun _ _ _ => Or.inl trivial) fun _ _ _ => trivial

/-- A start that reuses what an earlier session left makes the engine settled. -/
theorem resume_gives (reuses : Reuses k o e c read after a) (sound : e.Sound)
    (cached : e.cache = some after) (settings : read.settings = e.options.fingerprint)
    (made : read.made = some read.settings) :
    Gives (resume a none) e fun _ done => Keeps e done ∧ done.Settled := by
  have exact := reuses.exactFor e.violations.beginBatch
  have keeping := reuses.keeping e.violations.beginBatch settings made
  have keeps : Keeps e { e with
      cache := some after
      violations := e.violations.beginBatch.clear.add after.violations } :=
    ⟨rfl, rfl, rfl, rfl, rfl, by rw [cached]⟩
  have none : ∀ id ∈ a.notes, (e.violations.beginBatch.clear.add after.violations).ofNote id = [] := by
    intro id mem
    rw [reuses.ofNote, ((reuses.analyzed.notes id).1 mem).2]
    rfl
  unfold resume
  simp only [gives_batched, gives_bind, gives_onViolations, gives_get, cached, Option.map_some,
    Option.getD_some]
  refine (removeNotes_gives a.notes keeping.tidy keeping.filed none).mono ?_
  rintro _ _ ⟨v, rfl, tidy, filed, same⟩
  have keeps := keeps.onViolations v
  have exact := exact.same (f := { e with cache := some after, violations := v }) ⟨rfl, rfl, rfl⟩ tidy same
  -- First the stale schemas, ...
  refine (revalidateStale_gives (sound.keeps keeps) reuses.analyzed.once
    (by simpa using exact) (keeping.begun tidy filed same) (fun _ h => h) (fun _ _ h => h) ?_).mono ?_
  · intro t mem
    exact (mem_fresh.1 (by simpa using mem)).2
  rintro _ mid ⟨more, stale, all, exact, keeping⟩
  have keeps := keeps.trans more
  have exact : mid.ExactFor mid.schemaSet.schemas (· ∉ a.notes) (reportsDue a) := by
    refine exact.of_mem fun s => ?_
    rw [keeps.schemaSet, List.nil_append, List.mem_append, all, mem_fresh]
    by_cases live : s.id ∈ a.schemas <;> simp [live]
  have there : ∀ id ∈ a.notes, ∃ d, mid.notes.find? id = some d := by
    intro id mem
    rw [keeps.notes]
    exact ((reuses.analyzed.notes id).1 mem).1
  -- ... then the notes that have changed, ...
  refine (validateByIds_gives there exact keeping (sound.keeps keeps)
    (by rw [keeps.schemaSet]; exact fun _ _ h => h)).mono ?_
  rintro _ last ⟨more, exact, keeping⟩
  rw [keeps.schemaSet] at keeping
  have keeps' := keeps.trans more
  have exact : last.ExactBut (reportsDue a) := by
    rw [← more.schemaSet] at exact
    exact ⟨exact.tidy, exact.known, fun s mem id _ => exact.owns s mem id (Classical.em _).symm, exact.dups⟩
  have keeping : Keeping (.full e.schemaSet) last := keeping.completed all
  -- ... and at last the reports, which the passes before have left to a rescan.
  have moved : (!a.notes.isEmpty || !a.removed.isEmpty) = true ↔ a.notes ≠ [] ∨ a.removed ≠ [] := by
    simp
  by_cases changed : a.notes ≠ [] ∨ a.removed ≠ []
  · rw [if_pos (moved.2 changed)]
    simp only [gives_bind, gives_get]
    refine ((exact.rescans_gives (sound.keeps keeps') ?_ ?_ ?_).and (keeping.rescans _)).mono ?_
    · exact fun s mem => List.mem_of_mem_filter mem
    · exact fun s _ mute due => due.2.2 mute
    · exact fun s mem due => (mem_fresh (e := last)).2 ⟨mem, due.2.1⟩
    · rintro _ done ⟨⟨further, exact⟩, _, keeping⟩
      rw [gives_onViolations]
      exact (keeps'.trans further).ended exact keeping
  · rw [if_neg fun h => changed (moved.1 h), gives_onViolations]
    exact keeps'.ended (exact.exact fun s _ due => changed due.1) keeping

end VaultSchema.Engine
