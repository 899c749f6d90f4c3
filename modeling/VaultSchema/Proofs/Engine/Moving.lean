import VaultSchema.Engine.Session
import VaultSchema.Proofs.Engine.Run
import VaultSchema.Proofs.Report.Notifying

/-! How the work of the engine moves its store of violations, whether it succeeds or not. What plain
work on a store keeps to, and batches around it, is kept to by all work of the engine that does not
mark the violations as fully validated. -/

set_option autoImplicit false

namespace VaultSchema

/-- A relation that a store keeps to when plain work is done on it, in batches or not. -/
class Steady (R : ViolationStore → ViolationStore → Prop) : Prop where
  refl : ∀ s, R s s
  trans : ∀ {s t u}, R s t → R t u → R s u
  act : ∀ s {w : ViolationWork}, w.Plain → R s (s.act w)
  batch : ∀ {s t : ViolationStore}, R s.beginBatch t → R s t.endBatch

namespace Engine

variable {α β : Type} {e : Engine} {s : Schema} {R : ViolationStore → ViolationStore → Prop}

/-- How work moves the store of an engine, be it done to the end or not. -/
def MovesAt (R : ViolationStore → ViolationStore → Prop) (work : Run α) (e : Engine) : Prop :=
  R e.violations (work.run.run e).2.violations

def Moves (R : ViolationStore → ViolationStore → Prop) (work : Run α) : Prop := ∀ e, MovesAt R work e

theorem Moves.leads {work : Run α} (h : Moves R work) (e : Engine) :
    Leads work e fun _ after => R e.violations after.violations := by
  intro a after result
  have moved := h e
  rwa [MovesAt, result] at moved

namespace MovesAt

theorem get {next : Engine → Run β} (later : MovesAt R (next e) e) : MovesAt R (MonadState.get >>= next) e := later

theorem set {after : Engine} {next : PUnit → Run β} (same : after.violations = e.violations)
    (later : Moves R (next ⟨⟩)) : MovesAt R (MonadStateOf.set after >>= next) e := by
  have moved := later after
  rw [MovesAt, same] at moved
  exact moved

variable [Steady R]

theorem still {work : Run α} (same : (work.run.run e).2.violations = e.violations) : MovesAt R work e := by
  rw [MovesAt, same]
  exact Steady.refl _

theorem ofValue {r : Except ValueFault α} {next : α → Run β} (later : ∀ a, MovesAt R (next a) e) :
    MovesAt R (Engine.ofValue r >>= next) e := by
  cases r with
  | error f => exact .still rfl
  | ok a => exact later a

end MovesAt

namespace Moves

theorem get {next : Engine → Run β} (later : ∀ e, Moves R (next e)) : Moves R (MonadState.get >>= next) :=
  fun e => .get (later e e)

variable [Steady R]

theorem pure (a : α) : Moves R (Pure.pure a) := fun _ => .still rfl

theorem fail (f : EngineFault) : Moves R (throw f : Run α) := fun _ => .still rfl

theorem fail_bind (f : EngineFault) (next : α → Run β) : Moves R (throw f >>= next) := fun _ => .still rfl

theorem bind {work : Run α} {next : α → Run β} (first : Moves R work) (later : ∀ a, Moves R (next a)) :
    Moves R (work >>= next) := by
  intro e
  have before := first e
  unfold MovesAt at before ⊢
  rw [run_bind]
  cases result : work.run.run e with
  | mk found mid =>
    rw [result] at before
    cases found with
    | error f => exact before
    | ok a => exact Steady.trans before (later a mid)

theorem ofCheck (r : Check α) : Moves R (Engine.ofCheck r) := by
  cases r with
  | error f => exact fun _ => .still rfl
  | ok a => exact .pure a

theorem ofValue (r : Except ValueFault α) : Moves R (Engine.ofValue r) := by
  cases r with
  | error f => exact fun _ => .still rfl
  | ok a => exact .pure a

theorem modify {f : Engine → Engine} (same : ∀ e : Engine, (f e).violations = e.violations) :
    Moves R (modify f) := fun e => .still (same e)

theorem onCache (f : Cache → Cache) : Moves R (Engine.onCache f) := fun _ => .still rfl

theorem onIndex (f : StoredIndex → StoredIndex) : Moves R (Engine.onIndex f) := fun _ => .still rfl

theorem onViolations {w : ViolationWork} (plain : w.Plain) : Moves R (Engine.onViolations (·.act w)) :=
  fun e => Steady.act e.violations plain

theorem batched {work : Run α} (h : Moves R work) : Moves R (Engine.batched work) := by
  intro e
  rw [MovesAt, run_batched]
  exact Steady.batch (h { e with violations := e.violations.beginBatch })

theorem each {work : α → Run Unit} (h : ∀ a, Moves R (work a)) (l : List α) : Moves R (Engine.each work l) := by
  induction l with
  | nil => exact .pure ()
  | cons a l ih => exact (h a).bind fun _ => ih

theorem discard {work : Run α} (h : Moves R work) : Moves R (discard work) := h.bind fun _ => .pure _

end Moves

variable [Steady R]

theorem moves_refreshCached (id : String) : Moves R (refreshCached id) := .get fun _ => .onCache _

theorem moves_reportDuplicates (vs : List Violation) : Moves R (reportDuplicates s vs) := by
  refine (Moves.each (fun v => ?_) vs).bind fun _ => .each moves_refreshCached _
  exact .onViolations (w := .fieldReplaced v.document s.id v.field .duplicateValue [v]) trivial

theorem moves_observe (seen : UniqueValues) (d : Document) : Moves R (observe s seen d) :=
  (Moves.ofValue _).bind fun vs => (moves_reportDuplicates vs).bind fun _ => .pure _

theorem moves_observeAll (seen : UniqueValues) (ds : List Document) : Moves R (observeAll s seen ds) := by
  induction ds generalizing seen with
  | nil => exact .pure ()
  | cons d rest ih => exact (moves_observe seen d).bind ih

theorem moves_rescan (s : Schema) : Moves R (rescan s) := by
  unfold rescan
  split
  · exact .pure _
  · refine .get fun e => (Moves.ofValue _).bind fun notes => .batched ?_
    refine .get fun e => (Moves.onViolations (w := .kindRemoved s.id .duplicateValue) trivial).bind fun _ => ?_
    exact (moves_observeAll {} notes).bind fun _ => .each moves_refreshCached _

theorem moves_validateNote (d : Document) : Moves R (validateNote d s) :=
  .get fun _ => (Moves.ofCheck _).bind fun vs =>
    (Moves.onViolations (w := .schemaSet d.id s.id vs) trivial).bind fun _ =>
      .get fun _ => (Moves.onCache _).bind fun _ => .pure _

theorem moves_recordResult (d : Document) : Moves R (recordResult d s) :=
  .get fun _ => (Moves.ofCheck _).bind fun vs => .onViolations (w := .schemaSet d.id s.id vs) trivial

theorem moves_validateFully (d : Document) : Moves R (validateFully d) := by
  refine .get fun e => (Moves.ofValue _).bind fun applying => ?_
  refine (Moves.batched ?_).bind fun _ => .get fun _ => (Moves.onCache _).bind fun _ => .pure _
  refine .get fun e => (Moves.each (fun schema => ?_) _).bind fun _ => .each (fun _ => moves_recordResult d) _
  exact .onViolations (w := .noteSchemaRemoved d.id schema) trivial

theorem moves_startIndex : Moves R startIndex := by
  intro e
  refine MovesAt.get (MovesAt.set rfl ?_)
  split
  · exact .pure ()
  · exact .fail _

theorem moves_visit (seen : UniqueValues) (d : Document) : Moves R (visit s seen d) := by
  refine (Moves.discard (moves_validateNote d)).bind fun _ => ?_
  split
  · exact moves_observe seen d
  · exact .pure _

theorem moves_visitAll (seen : UniqueValues) (position : Nat) (cancel : Cancellation) (ds : List Document) :
    Moves R (visitAll s seen position cancel ds) := by
  induction ds generalizing seen position cancel with
  | nil => exact .pure _
  | cons d rest ih =>
    rw [visitAll]
    refine .get fun e => ?_
    generalize (if atBoundary e.options position then cancel.boundary else (false, cancel)) = boundary
    obtain ⟨stop, cancel⟩ := boundary
    cases stop with
    | true => exact .pure _
    | false => exact (moves_visit seen d).bind fun seen => ih seen _ cancel

theorem moves_validateSchema (cancel : Cancellation) : Moves R (validateSchema s cancel) := by
  unfold validateSchema
  split
  · exact .pure _
  · refine .get fun e => (Moves.ofValue _).bind fun notes => ?_
    refine (Moves.batched ?_).bind ?_
    · split
      · exact (Moves.onViolations (w := .kindRemoved s.id .duplicateValue) trivial).bind
          fun _ => moves_visitAll {} 0 cancel notes
      · exact moves_visitAll {} 0 cancel notes
    · rintro ⟨finished, next⟩
      cases finished with
      | false => exact .pure _
      | true =>
        intro e
        refine MovesAt.get ?_
        cases e.cache with
        | none => exact .still rfl
        | some c =>
          refine MovesAt.ofValue fun hashed => MovesAt.set rfl (.pure _)

theorem moves_validateSchemas (cancel : Cancellation) (schemas : List Schema) :
    Moves R (validateSchemas cancel schemas) := by
  induction schemas generalizing cancel with
  | nil => exact .pure _
  | cons s rest ih =>
    refine (moves_validateSchema cancel).bind ?_
    rintro ⟨finished, next⟩
    cases finished with
    | false => exact .pure _
    | true => exact ih next

theorem moves_cacheUnmatched (d : Document) : Moves R (cacheUnmatched d) := .get fun _ => .onCache _

theorem moves_revalidate (id : String) : Moves R (revalidate id) := by
  refine (Moves.onViolations (w := .schemaRemoved id) trivial).bind fun _ => (Moves.onCache _).bind fun _ => ?_
  refine .get fun e => ?_
  split
  · exact .pure ()
  · exact .discard (moves_validateSchema none)

theorem moves_reconcileIndex : Moves R reconcileIndex := .modify fun _ => rfl

theorem moves_openCache (c : Cache) : Moves R (openCache c) := by
  refine .get fun _ => (Moves.ofValue _).bind ?_
  rintro ⟨loaded, _⟩
  refine Moves.bind (.modify fun _ => rfl) fun _ => .get fun _ => (Moves.ofValue _).bind ?_
  rintro ⟨analyzed, analysis⟩
  exact Moves.bind (.modify fun _ => rfl) fun _ => .pure analysis

theorem moves_revalidateStale (cancel : Cancellation) (ids : List String) :
    Moves R (revalidateStale cancel ids) := by
  induction ids generalizing cancel with
  | nil => exact .pure ()
  | cons id rest ih =>
    refine (Moves.onViolations (w := .schemaRemoved id) trivial).bind fun _ => .get fun e => ?_
    split
    · exact ih cancel
    · refine (moves_validateSchema cancel).bind ?_
      rintro ⟨_, next⟩
      exact ih next

theorem moves_validateById (id : String) : Moves R (validateById id) := by
  refine .get fun e => ?_
  split
  · exact .pure ()
  · exact .discard (moves_validateFully _)

theorem moves_shutdown : Moves R shutdown := by
  intro e
  refine MovesAt.get (MovesAt.set rfl ?_)
  cases (e.index.flush e.blobs).fault with
  | some f => exact .fail_bind (.value f) _
  | none =>
    intro e
    refine MovesAt.get ?_
    cases e.cache with
    | none => exact .still rfl
    | some c =>
      refine MovesAt.set rfl ?_
      cases (c.flush e.blobs).fault with
      | none => exact .pure ()
      | some f => exact .fail _

theorem moves_noteChanged (d : Document) : Moves R (noteChanged d) :=
  .get fun _ => (Moves.onIndex _).bind fun _ => (moves_validateFully d).bind fun _ =>
    .get fun _ => .each moves_rescan _

theorem moves_noteRenamed (old : String) (d : Document) : Moves R (noteRenamed old d) :=
  (Moves.onIndex _).bind fun _ => (Moves.onViolations (w := .renamed old d.id) trivial).bind fun _ =>
    (Moves.onCache _).bind fun _ => moves_noteChanged d

theorem moves_noteDeleted (id : String) : Moves R (noteDeleted id) :=
  .get fun _ => (Moves.onIndex _).bind fun _ => (Moves.onViolations (w := .noteRemoved id) trivial).bind fun _ =>
    (Moves.onCache _).bind fun _ => .get fun _ => .each moves_rescan _

end Engine
end VaultSchema
