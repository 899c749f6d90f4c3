import VaultSchema.Proofs.Engine.Marking
import VaultSchema.Proofs.Engine.Sessions

/-! Full passes that may be cancelled. What a pass has recorded by then is right as far as it goes,
and the schema at which it was cancelled has no fingerprint yet, so the next start validates it
anew. -/

set_option autoImplicit false

namespace VaultSchema

open ViolationStore (own dup)

namespace Engine

variable {e : Engine} {s : Schema} {cancel : Cancellation}

def completes (e : Engine) (cancel : Cancellation) : List Schema → Bool
  | [] => true
  | s :: rest => (e.reached s cancel).2.1 && e.completes (e.reached s cancel).2.2 rest

theorem Alike.reached {f : Engine} (h : Alike e f) (s : Schema) (cancel : Cancellation) :
    f.reached s cancel = e.reached s cancel := by
  rw [Engine.reached, Engine.reached, chosen, chosen, h.options, h.notes]

theorem Alike.completes {f : Engine} (h : Alike e f) (schemas : List Schema) :
    f.completes cancel schemas = e.completes cancel schemas := by
  induction schemas generalizing cancel with
  | nil => rfl
  | cons s rest ih => rw [Engine.completes, Engine.completes, h.reached, ih]

def Coverage.halted (set : SchemaSet) (done : List Schema) (s : Schema) (ds : List Document) : Coverage :=
  ((Coverage.none set).passes done).visited s ds

/-- What a pass that was cancelled leaves. -/
structure Halted (e : Engine) (done : List Schema) (s : Schema) (ds : List Document) : Prop where
  owns : ∀ t ∈ done, ∀ id, own t.id (e.violations.ofNote id) = e.ownOf t id
  dups : ∀ t ∈ done, ∀ id field, dup t.id field (e.violations.ofNote id) = e.reportOf t id field
  spoken : ∀ id, ∀ v ∈ e.violations.ofNote id, ∃ d ∈ e.notes.notes, d.id = id ∧
    (Coverage.halted e.schemaSet done s ds).lists d v.schema
  keeping : Keeping (.halted e.schemaSet done s ds) e

theorem ExactFor.halted {after : Engine} {done : List Schema} {ds : List Document}
    (exact : e.ExactFor done (fun _ => True) fun _ => False) (new : ∀ t ∈ done, t.id ≠ s.id)
    (some : ∀ d ∈ ds, d ∈ e.notes.notes) (keeps : Keeps e after)
    (passed : ViolationStore.Passed s (fun d => e.found d s) ds e.violations after.violations)
    (keeping : Keeping (.halted e.schemaSet done s ds) after) : after.Halted done s ds := by
  refine ⟨?_, ?_, ?_, by rw [keeps.schemaSet]; exact keeping⟩
  · intro t mem id
    rw [keeps.alike.ownOf, passed.elsewhere _ _ fun same => absurd same.symm (new t mem)]
    exact exact.owns t mem id trivial
  · intro t mem id field
    rw [keeps.alike.reportOf, passed.dups, if_neg fun both => new t mem both.1.symm]
    exact exact.dups t mem (fun due => due) id field
  · intro id v held
    rw [keeps.notes, keeps.schemaSet]
    by_cases its : s.id = v.schema
    -- Whatever the schema says is of a note that the pass has come to, since it had said nothing before.
    · have near : ∃ d ∈ ds, d.id = id := by
        by_contra away
        have none : ∀ d ∈ ds, d.id ≠ id := fun d mem same => away ⟨d, mem, same⟩
        obtain ⟨noOwn, noDup⟩ := exact.silent new id
        refine List.not_mem_nil (ViolationStore.mem_of_slices held ?_ ?_)
        · rw [← its, passed.elsewhere _ _ fun _ => none, noOwn, ViolationStore.own_nil]
        · rw [← its, passed.dups, ViolationStore.dup_nil]
          split
          · refine Observation.report_of_none (List.find?_eq_none.2 fun o mem => ?_)
            obtain ⟨d, visited, mem⟩ := List.mem_flatMap.1 mem
            simp [Schema.note_of_observations mem, none d visited]
          · exact noDup _
      obtain ⟨d, mem, same⟩ := near
      exact ⟨d, some d mem, same, Or.inr ⟨mem, its.symm⟩⟩
    · obtain ⟨t, mem, named, d, there, same, accepts⟩ := exact.speaker (passed.mem_before its held)
      exact ⟨d, there, same, Or.inl (Or.inr ⟨t, mem, accepts, named⟩)⟩

theorem validateSchema_ends (sound : e.Sound) (mem : s ∈ e.schemaSet.schemas) (tidy : e.violations.Tidy)
    (cancel : Cancellation) : Gives (validateSchema s cancel) e fun r after =>
      r = (e.reached s cancel).2 ∧ Keeps e after ∧
      (s.enabled = true → ViolationStore.Passed s (fun d => e.found d s) (e.reached s cancel).1 e.violations
        after.violations) ∧
      (s.enabled = false → r.1 = true ∧ after = e) := by
  cases enabled : s.enabled with
  | false =>
    have off : e.chosen s = [] := by simp [chosen, List.filter_eq_nil_iff, accepts_of_not_enabled enabled]
    unfold validateSchema
    simp only [enabled, Bool.not_false, if_true, gives_pure]
    rw [reached, off, reach]
    exact ⟨rfl, .refl e, fun on => Bool.noConfusion on, fun _ => ⟨trivial, trivial⟩⟩
  | true =>
    refine (Engine.validateSchema_gives sound mem tidy enabled cancel).mono ?_
    rintro r after ⟨same, keeps, passed⟩
    exact ⟨same, keeps, fun _ => passed, fun off => Bool.noConfusion off⟩

theorem validateSchemas_ends {rest : List Schema} (sound : e.Sound)
    (known : ∀ s ∈ rest, s ∈ e.schemaSet.schemas) (tidy : e.violations.Tidy) (cancel : Cancellation) :
    Gives (validateSchemas cancel rest) e fun finished after =>
      finished = e.completes cancel rest ∧ Keeps e after := by
  induction rest generalizing e cancel with
  | nil => exact ⟨rfl, .refl e⟩
  | cons s rest ih =>
    rw [validateSchemas, gives_bind]
    refine (validateSchema_ends sound (known s (by simp)) tidy cancel).mono ?_
    rintro ⟨finished, next⟩ mid ⟨same, keeps, passed, off⟩
    rw [completes, ← same]
    cases finished with
    | false => exact ⟨rfl, keeps⟩
    | true =>
      have tidy : mid.violations.Tidy := by
        cases enabled : s.enabled with
        | true => exact (passed enabled).tidy
        | false => rwa [(off enabled).2]
      have known : ∀ t ∈ rest, t ∈ mid.schemaSet.schemas := by
        rw [keeps.schemaSet]
        exact fun t mem => known t (by simp [mem])
      refine (ih (sound.keeps keeps) known tidy next).mono ?_
      rintro finished after ⟨same, more⟩
      exact ⟨by rw [same, keeps.alike.completes, Bool.true_and], keeps.trans more⟩

theorem ExactFor.validateSchema_halts {done : List Schema}
    (exact : e.ExactFor done (fun _ => True) fun _ => False)
    (keeping : Keeping ((Coverage.none e.schemaSet).passes done) e) (sound : e.Sound)
    (mem : s ∈ e.schemaSet.schemas) (new : ∀ t ∈ done, t.id ≠ s.id) (cancel : Cancellation) :
    Leads (validateSchema s cancel) e fun r after => Keeps e after ∧
      (r.1 = true → after.ExactFor (done ++ [s]) (fun _ => True) (fun _ => False) ∧
        Keeping ((Coverage.none e.schemaSet).passes (done ++ [s])) after) ∧
      (r.1 = false → after.Halted done s (e.reached s cancel).1) := by
  have admitted : ∀ d ∈ e.chosen s, Concerns e.schemaSet d s.id :=
    fun d inside => ⟨s, mem, (mem_chosen.1 inside).2, rfl⟩
  refine ((validateSchema_ends sound mem exact.tidy cancel).leads.and
    (keeping.validateSchema sound mem (fun _ h => h) admitted (exact.quiet new) cancel)).mono ?_
  rintro r after ⟨⟨same, keeps, passed, off⟩, _, keeping⟩
  refine ⟨keeps, fun ended => ⟨?_, ?_⟩, fun cut => ?_⟩
  · cases enabled : s.enabled with
    | false =>
      rw [(off enabled).2]
      exact exact.disabled new enabled
    | true =>
      have passed := passed enabled
      rw [same] at ended
      rw [reached, reach_finished ended] at passed
      exact exact.passed sound.notes new enabled keeps passed
  · rw [same] at ended
    rw [Coverage.reached, if_pos ended, reached, reach_finished ended] at keeping
    exact keeping.passes_append keeps.alike
  · have enabled : s.enabled = true := by
      by_contra disabled
      rw [(off (by simpa using disabled)).1] at cut
      cases cut
    rw [same] at cut
    rw [Coverage.reached, cut, if_neg Bool.false_ne_true] at keeping
    refine exact.halted new ?_ keeps (passed enabled) keeping
    intro d visited
    exact (mem_chosen.1 ((reach_isPrefix _ _ _ _).subset visited)).1

theorem validateSchemas_halts {done rest : List Schema} (sound : e.Sound)
    (all : e.schemaSet.schemas = done ++ rest) (exact : e.ExactFor done (fun _ => True) fun _ => False)
    (keeping : Keeping ((Coverage.none e.schemaSet).passes done) e) (cancel : Cancellation) :
    Leads (validateSchemas cancel rest) e fun finished after => Keeps e after ∧
      (finished = true → after.Exact ∧ Keeping ((Coverage.none e.schemaSet).passes e.schemaSet.schemas) after) ∧
      (finished = false → ∃ done s ds, after.Halted done s ds) := by
  -- The schemas that are done grow by one with each pass, and the first pass that is cut ends it.
  induction rest generalizing e done cancel with
  | nil =>
    rw [List.append_nil] at all
    refine leads_pure.2 ⟨.refl e, fun _ => ⟨?_, by rw [all]; exact keeping⟩, fun cut => Bool.noConfusion cut⟩
    unfold Exact ExactBut
    rw [all]
    exact exact
  | cons s rest ih =>
    have new : ∀ t ∈ done, t.id ≠ s.id := fun t => Text.key_ne_of_nodup (all ▸ sound.schemas)
    rw [validateSchemas, leads_bind]
    refine (exact.validateSchema_halts keeping sound (by simp [all]) new cancel).mono ?_
    rintro ⟨finished, next⟩ mid ⟨keeps, ended, cut⟩
    cases finished with
    | false => exact leads_pure.2 ⟨keeps, fun ended => Bool.noConfusion ended, fun _ => ⟨_, _, _, cut rfl⟩⟩
    | true =>
      obtain ⟨exact, keeping⟩ := ended rfl
      have split : mid.schemaSet.schemas = (done ++ [s]) ++ rest := by
        rw [keeps.schemaSet, all, List.append_assoc]
        rfl
      rw [← keeps.schemaSet] at keeping ⊢
      refine (ih (sound.keeps keeps) split exact keeping next).mono ?_
      rintro finished after ⟨more, ended, cut⟩
      exact ⟨keeps.trans more, ended, cut⟩

theorem Halted.endBatch {done : List Schema} {ds : List Document} (h : e.Halted done s ds) :
    { e with violations := e.violations.endBatch }.Halted done s ds := by
  have alike := ((Keeps.refl e).onViolations e.violations.endBatch).alike
  have same : ∀ id, e.violations.endBatch.ofNote id = e.violations.ofNote id :=
    fun id => ViolationStore.ofNote_endBatch _ id
  refine ⟨?_, ?_, ?_, h.keeping.congr alike rfl (ViolationStore.byNote_endBatch _)⟩
  · intro t mem id
    rw [alike.ownOf, same]
    exact h.owns t mem id
  · intro t mem id field
    rw [alike.reportOf, same]
    exact h.dups t mem id field
  · intro id v held
    rw [same] at held
    exact h.spoken id v held

/-- An engine leaves results that an engine like it can complete. -/
def Resumable (e : Engine) : Prop :=
  ∃ k c, e.cache = some c ∧ ∀ f, Alike e f → Leaves k e f c

theorem Settled.resumable (settled : e.Settled) (sound : e.Sound) : e.Resumable := by
  obtain ⟨c, cached, _⟩ := settled.keeping.kept
  exact ⟨_, c, cached, fun f _ => settled.leaves sound cached f⟩

theorem Halted.resumable {done : List Schema} {ds : List Document} (h : e.Halted done s ds) (sound : e.Sound) :
    e.Resumable := by
  obtain ⟨c, cached, kept⟩ := h.keeping.kept
  refine ⟨.halted e.schemaSet done s ds, c, cached, fun f alike => ?_⟩
  have inside : ∀ t, (Coverage.halted e.schemaSet done s ds).signs t → t ∈ done :=
    fun t signs => (signs.resolve_left fun h => h).1
  refine ⟨sound.notes, sound.schemas, h.keeping.filed, kept, fun _ => ⟨fun h => h, fun behind => behind.1⟩,
    fun t _ signs => h.owns t (inside t signs), fun t _ signs => h.dups t (inside t signs), ?_, h.spoken,
    fun _ _ concerns => concerns, ?_, ?_⟩
  · exact fun t _ signs d _ accepts => Or.inl (Or.inr ⟨t, inside t signs, accepts, rfl⟩)
  · rw [alike.schemaSet]
    exact fun t mem _ => Or.inr ⟨t, mem, rfl⟩
  · rw [alike.notes]
    exact fun d mem => Or.inr ⟨d, (NoteStore.has_iff sound.notes).2 mem⟩

theorem fullPass_ends (sound : e.Sound) (cancel : Cancellation) : Gives (fullPass cancel) e fun finished after =>
    finished = e.completes cancel e.schemaSet.schemas ∧ Keeps e after := by
  unfold fullPass
  simp only [gives_batched, gives_bind, gives_onViolations, gives_onCache, gives_get]
  change Gives (validateSchemas cancel (emptied e).schemaSet.schemas) (emptied e) _
  have begun := keeps_emptied e
  refine (validateSchemas_ends (sound.keeps begun) (fun _ mem => mem) (exactFor_emptied e).tidy cancel).mono ?_
  rintro finished mid ⟨same, more⟩
  have keeps := begun.trans more
  rw [begun.alike.completes] at same
  cases finished with
  | false =>
    simp only [Bool.false_eq_true, if_false, gives_pure]
    exact ⟨same, keeps.onViolations _⟩
  | true =>
    simp only [if_true, gives_bind, gives_onViolations, gives_get, gives_pure]
    refine (cacheUnmatched_gives _).mono ?_
    rintro _ after ⟨further, _⟩
    exact ⟨same, ((keeps.onViolations _).trans further).onViolations _⟩

/-- A full pass leaves results that can be completed, whether it comes to its end or is cancelled. -/
theorem fullPass_resumable {c : Cache} (sound : e.Sound) (cached : e.cache = some c)
    (settings : c.settings = e.options.fingerprint) (cancel : Cancellation) :
    Leads (fullPass cancel) e fun _ after => after.Resumable := by
  unfold fullPass
  simp only [leads_batched, leads_bind, leads_onViolations, leads_onCache, leads_get]
  change Leads (validateSchemas cancel (emptied e).schemaSet.schemas) (emptied e) _
  have begun := keeps_emptied e
  refine (validateSchemas_halts (sound.keeps begun) rfl (exactFor_emptied e) (keeping_emptied cached settings)
    cancel).mono ?_
  rintro finished mid ⟨more, ended, cut⟩
  have keeps := begun.trans more
  cases finished with
  | false =>
    obtain ⟨done, s, ds, halted⟩ := cut rfl
    simp only [Bool.false_eq_true, if_false, leads_pure]
    exact halted.endBatch.resumable (sound.keeps (keeps.onViolations _))
  | true =>
    obtain ⟨exact, keeping⟩ := ended rfl
    simp only [if_true, leads_bind, leads_onViolations, leads_get, leads_pure]
    have distinct : mid.notes.Distinct := by
      rw [keeps.notes]
      exact sound.notes
    have passed : Keeping ((Coverage.none e.schemaSet).passes e.schemaSet.schemas) mid := keeping
    refine ((cacheUnmatched_gives _).leads.and (passed.complete distinct)).mono ?_
    rintro _ after ⟨⟨further, held⟩, keeping⟩
    have last := ((Keeps.refl mid).onViolations _).trans further
    have keeps := (keeps.trans last).onViolations after.violations.endBatch
    rw [← show after.schemaSet = e.schemaSet from keeps.schemaSet] at keeping
    have settled : { after with violations := after.violations.endBatch }.Settled := by
      refine ⟨exact.congr (last.onViolations _).alike ?_, keeping⟩
      rw [ViolationStore.byNote_endBatch, held, ViolationStore.byNote_mark]
    exact settled.resumable (sound.keeps keeps)

end Engine
end VaultSchema
