import VaultSchema.Proofs.Engine.Moving
import VaultSchema.Proofs.Engine.Startup

/-! What the listeners learn from the work of the engine. All of this work ends the batches that it
begins, also where a fault cuts it short, and calls every listener of the store equally often. A
full validation calls each of them once. -/

set_option autoImplicit false

namespace VaultSchema

namespace ViolationStore

/-- One store comes of another by work that ends the batches it begins. -/
structure Worked (s t : ViolationStore) : Prop where
  depth : t.depth = s.depth
  equally : ∃ n, t.listeners = s.listeners.map Listener.notify^[n]
  /-- In a batch no listener is called, and what is owed stays owed. -/
  waits : 0 < s.depth → t.listeners = s.listeners ∧ (s.owed = true → t.owed = true)

namespace Worked

variable {s t u : ViolationStore}

theorem refl (s : ViolationStore) : Worked s s :=
  ⟨rfl, ⟨0, (List.map_id _).symm⟩, fun _ => ⟨rfl, id⟩⟩

theorem trans (first : Worked s t) (later : Worked t u) : Worked s u where
  depth := later.depth.trans first.depth
  equally := by
    obtain ⟨m, first⟩ := first.equally
    obtain ⟨n, later⟩ := later.equally
    exact ⟨n + m, listeners_trans first later⟩
  waits some := by
    obtain ⟨same, owed⟩ := first.waits some
    obtain ⟨more, still⟩ := later.waits (first.depth ▸ some)
    exact ⟨more.trans same, fun due => still (owed due)⟩

theorem notify (s : ViolationStore) (byNote : Table String (List Violation)) :
    Worked s (ViolationStore.notify { s with byNote }) := by
  rcases Nat.eq_zero_or_pos s.depth with none | some
  · rw [notify_closed (show ({ s with byNote } : ViolationStore).depth = 0 from none)]
    exact ⟨rfl, ⟨1, rfl⟩, fun some => absurd some (by omega)⟩
  · rw [notify_open (show 0 < ({ s with byNote } : ViolationStore).depth from some)]
    exact ⟨rfl, ⟨0, (List.map_id _).symm⟩, fun _ => ⟨rfl, fun _ => rfl⟩⟩

theorem marked (s : ViolationStore) : Worked s s.mark := ⟨rfl, ⟨0, (List.map_id _).symm⟩, fun _ => ⟨rfl, id⟩⟩

theorem act (s : ViolationStore) {w : ViolationWork} (plain : w.Plain) : Worked s (s.act w) := by
  by_cases asks : s.Asks w
  · obtain ⟨byNote, done⟩ := act_of_asks asks
    rw [done]
    exact .notify s byNote
  · rw [act_of_quiet asks plain]
    exact .refl s

theorem batch (h : Worked s.beginBatch t) : Worked s t.endBatch := by
  have depth : t.depth = s.depth + 1 := h.depth
  obtain ⟨same, owed⟩ := h.waits s.depth.succ_pos
  have same : t.listeners = s.listeners := same
  rcases Nat.eq_zero_or_pos s.depth with none | some
  · rw [endBatch_outermost (by omega)]
    refine ⟨none.symm, ?_, fun some => absurd some (by omega)⟩
    dsimp only
    rw [same]
    split
    · exact ⟨1, rfl⟩
    · exact ⟨0, (List.map_id _).symm⟩
  · obtain ⟨n, more⟩ := Nat.exists_eq_succ_of_ne_zero some.ne'
    rw [endBatch_inner (depth.trans (congrArg (· + 1) more))]
    exact ⟨more.symm, ⟨0, same.trans (List.map_id _).symm⟩, fun _ => ⟨same, owed⟩⟩

end Worked

instance : Steady Worked := ⟨.refl, .trans, .act, .batch⟩

end ViolationStore

namespace Engine

open ViolationStore (Worked)

variable {e : Engine}

theorem mark_works : Moves Worked (onViolations (·.mark)) := fun e => .marked e.violations

theorem fullPass_eq (cancel : Cancellation) : ∃ work : Run Bool, Moves Worked work ∧ fullPass cancel = batched (do
    onViolations (·.clear)
    work) := by
  refine ⟨_, ?_, rfl⟩
  refine (Moves.onCache _).bind fun _ => .get fun e => (moves_validateSchemas cancel _).bind fun finished => ?_
  cases finished with
  | false => exact .pure _
  | true =>
    refine mark_works.bind fun _ => .get fun e => ?_
    exact (Moves.each moves_cacheUnmatched _).bind fun _ => .pure _

theorem fullPass_works (cancel : Cancellation) : Moves Worked (fullPass cancel) := by
  obtain ⟨work, working, same⟩ := fullPass_eq cancel
  rw [same]
  exact .batched ((Moves.onViolations (w := .cleared) trivial).bind fun _ => working)

/-- Outside of batches a full pass calls each listener once, also where it is cancelled or fails. -/
theorem fullPass_notifies (outside : e.violations.depth = 0) (cancel : Cancellation) :
    ((fullPass cancel).run.run e).2.violations.listeners = e.violations.listeners.map Listener.notify := by
  obtain ⟨work, working, same⟩ := fullPass_eq cancel
  rw [same, run_batched]
  -- What is forgotten is owed to the listeners, and the rest of the pass keeps it so.
  have cleared : e.violations.beginBatch.clear =
      { e.violations.beginBatch with byNote := {}, owed := true } :=
    ViolationStore.notify_open (s := { e.violations.beginBatch with byNote := {} }) e.violations.depth.succ_pos
  have rest : Worked _ _ := working { e with violations := e.violations.beginBatch.clear }
  change (work.run.run { e with violations := e.violations.beginBatch.clear }).2.violations.endBatch.listeners = _
  generalize (work.run.run { e with violations := e.violations.beginBatch.clear }).2.violations = last at rest ⊢
  rw [cleared] at rest
  obtain ⟨listeners, owed⟩ := rest.waits e.violations.depth.succ_pos
  have depth : last.depth = e.violations.depth + 1 := rest.depth
  rw [ViolationStore.endBatch_outermost (by omega)]
  dsimp only
  rw [if_pos (owed rfl), listeners]
  rfl

theorem validateAll_works (cancel : Cancellation) : Moves Worked (validateAll cancel) := by
  refine .get fun e => ?_
  change Moves Worked (if !e.index.ready then startIndex >>= fun _ => fullPass cancel else fullPass cancel)
  split
  · exact moves_startIndex.bind fun _ => fullPass_works cancel
  · exact fullPass_works cancel

theorem startIndex_leads (e : Engine) : Leads startIndex e fun _ after => after.violations = e.violations := by
  unfold startIndex
  simp only [leads_bind, leads_get, leads_set]
  split
  · exact leads_pure.2 rfl
  · rintro _ _ ⟨⟩

theorem validateAll_notifies (outside : e.violations.depth = 0) (cancel : Cancellation) :
    Leads (validateAll cancel) e fun _ after =>
      after.violations.listeners = e.violations.listeners.map Listener.notify := by
  have passes : ∀ mid : Engine, mid.violations = e.violations → Leads (fullPass cancel) mid fun _ after =>
      after.violations.listeners = e.violations.listeners.map Listener.notify := by
    intro mid same finished after result
    have told := fullPass_notifies (show mid.violations.depth = 0 by rw [same, outside]) cancel
    rwa [result, same] at told
  change Leads (if !e.index.ready then startIndex >>= fun _ => fullPass cancel else fullPass cancel) e _
  split
  · exact leads_bind.2 ((startIndex_leads e).mono fun _ mid same => passes mid same)
  · exact passes e rfl

theorem resume_works (a : Analysis) (cancel : Cancellation) : Moves Worked (resume a cancel) := by
  refine .batched ((Moves.onViolations (w := .cleared) trivial).bind fun _ => .get fun e => ?_)
  generalize (e.cache.map (·.violations)).getD [] = cached
  refine (Moves.onViolations (w := .added cached) trivial).bind fun _ => ?_
  refine (Moves.each (fun id => .onViolations (w := .noteRemoved id) trivial) a.notes).bind fun _ => ?_
  refine (moves_revalidateStale cancel a.schemas).bind fun _ => ?_
  refine (Moves.each moves_validateById _).bind fun _ => ?_
  split
  · exact .get fun e => (Moves.each moves_rescan _).bind fun _ => mark_works
  · exact mark_works

theorem restore_works (cancel : Cancellation) (c : Option Cache) : Moves Worked (restore cancel c) := by
  cases c with
  | none => exact .discard (validateAll_works cancel)
  | some c =>
    refine (moves_openCache c).bind fun analysis => ?_
    split
    · exact .discard (validateAll_works cancel)
    · exact resume_works analysis cancel

theorem startup_works (cancel : Cancellation) : Moves Worked (startup cancel) := by
  unfold startup
  refine .get fun e => ?_
  cases e.index.ready with
  | true => exact moves_reconcileIndex.bind fun _ => .get fun e => restore_works cancel e.cache
  | false => exact moves_startIndex.bind fun _ => .get fun e => restore_works cancel e.cache

end Engine
end VaultSchema
