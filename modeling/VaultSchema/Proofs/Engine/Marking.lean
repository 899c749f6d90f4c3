import VaultSchema.Proofs.Engine.Moving
import VaultSchema.Proofs.Engine.Pass

set_option autoImplicit false

namespace VaultSchema

namespace ViolationStore

variable (s : ViolationStore)

@[simp] theorem marked_notify : s.notify.marked = s.marked := by
  unfold notify
  split <;> rfl

@[simp] theorem marked_beginBatch : s.beginBatch.marked = s.marked := rfl

@[simp] theorem marked_endBatch : s.endBatch.marked = s.marked := by
  unfold endBatch
  split
  · rfl
  · split
    · exact marked_notify _
    · rfl
  · rfl

@[simp] theorem marked_clear : s.clear.marked = s.marked := marked_notify _

@[simp] theorem marked_mark : s.mark.marked = true := rfl

theorem marked_act {w : ViolationWork} (plain : w.Plain) : (s.act w).marked = s.marked := by
  by_cases asks : s.Asks w
  · obtain ⟨byNote, done⟩ := act_of_asks asks
    rw [done, marked_notify]
  · rw [act_of_quiet asks plain]

end ViolationStore

namespace Engine

def SameMark (s t : ViolationStore) : Prop := t.marked = s.marked

instance : Steady SameMark where
  refl _ := rfl
  trans first later := Eq.trans later first
  act s _ plain := s.marked_act plain
  batch same := (ViolationStore.marked_endBatch _).trans same

/-- A full pass marks the violations just when it comes to its end. -/
theorem fullPass_marks (cancel : Cancellation) (e : Engine) : Leads (fullPass cancel) e fun finished after =>
    after.violations.marked = (finished || e.violations.marked) := by
  unfold fullPass
  simp only [leads_batched, leads_bind, leads_onViolations, leads_onCache, leads_get]
  refine ((moves_validateSchemas cancel _ : Moves SameMark _).leads _).mono ?_
  rintro finished mid same
  cases finished with
  | false =>
    simp only [Bool.false_eq_true, if_false, leads_pure, Bool.false_or]
    simpa [SameMark] using same
  | true =>
    simp only [if_true, leads_bind, leads_onViolations, leads_get, leads_pure, Bool.true_or]
    refine ((Moves.each moves_cacheUnmatched _ : Moves SameMark _).leads _).mono ?_
    intro _ after more
    rw [ViolationStore.marked_endBatch, more, ViolationStore.marked_mark]

/-- The end of a start that reuses results always marks them, whether a pass of it was cancelled or not. -/
theorem resume_marks (a : Analysis) (cancel : Cancellation) (e : Engine) :
    Leads (resume a cancel) e fun _ after => after.violations.marked = true := by
  unfold resume
  simp only [leads_batched, leads_bind, leads_onViolations, leads_get]
  intro _ removed _ _ revalidated _ _ validated _
  split
  · simp only [leads_bind, leads_get]
    intro _ rescanned _
    rw [leads_onViolations]
    simp
  · rw [leads_onViolations]
    simp

end Engine
end VaultSchema
