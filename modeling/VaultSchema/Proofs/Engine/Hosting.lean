import VaultSchema.Proofs.Engine.Listing
import VaultSchema.Proofs.Engine.Reporting

/-! A host that hands a store of violations to the engine and keeps hold of it. When the store holds
violations the engine reports into it, and its listeners are called as often as those of the engine.
A store without any violations is left alone. -/

set_option autoImplicit false

namespace VaultSchema

/-- What a host can have the engine do, and what may happen around it. -/
inductive EngineCall where
  | started (cancel : Cancellation)
  | ended
  | indexed
  | validated (cancel : Cancellation)
  | schemaValidated (s : Schema) (cancel : Cancellation)
  | noteValidated (d : Document) (s : Schema)
  | noteFullyValidated (d : Document)
  | told (c : Change)
  | schemasSwapped (schemas : SchemaSet)
  | filesChanged (notes : NoteStore) (blobs : BlobStore)

namespace EngineCall

open Engine
open ViolationStore (Worked)

def work : EngineCall → Run Unit
  | started cancel => startup cancel
  | ended => shutdown
  | indexed => startIndex
  | validated cancel => discard (validateAll cancel)
  | schemaValidated s cancel => discard (validateSchema s cancel)
  | noteValidated d s => discard (validateNote d s)
  | noteFullyValidated d => discard (violationsNow d)
  | told c => c.step
  | schemasSwapped schemas => modify fun e => { e with schemaSet := schemas }
  | filesChanged notes blobs => modify fun e => { e with notes := notes, blobs := blobs }

theorem works (c : EngineCall) : Moves Worked c.work := by
  cases c with
  | started cancel => exact startup_works cancel
  | ended => exact moves_shutdown
  | indexed => exact moves_startIndex
  | validated cancel => exact .discard (validateAll_works cancel)
  | schemaValidated s cancel => exact .discard (moves_validateSchema cancel)
  | noteValidated d s => exact .discard (moves_validateNote d)
  | noteFullyValidated d => exact .discard ((moves_validateFully d).discard.bind fun _ => .get fun _ => .pure _)
  | told c =>
    refine Moves.bind (.modify fun _ => rfl) fun _ => ?_
    cases c with
    | changed d => exact moves_noteChanged d
    | renamed old d => exact moves_noteRenamed old d
    | deleted id => exact moves_noteDeleted id
    | revalidated id => exact moves_revalidate id
    | rescanned s => exact moves_rescan s
  | schemasSwapped schemas => exact .modify fun _ => rfl
  | filesChanged notes blobs => exact .modify fun _ => rfl

def after (c : EngineCall) (e : Engine) : Engine := (c.work.run.run e).2

end EngineCall

theorem Listener.notify_iterate (n : Nat) (l : Listener) :
    Listener.notify^[n] l = if l.active then { l with calls := l.calls + n } else l := by
  induction n with
  | zero => simp
  | succ n ih =>
    rw [Function.iterate_succ_apply', ih]
    cases active : l.active <;> simp [Listener.notify, active, Nat.add_assoc]

/-- An engine, and the store that was handed to it as the host sees it. -/
structure Host where
  engine : Engine
  store : ViolationStore
  shared : Bool

namespace Host

open Engine

def create (options : EngineOptions) (notes : NoteStore) (blobs : BlobStore) (schemaSet : SchemaSet)
    (cached : Bool) (given : ViolationStore) : Host where
  engine := Engine.create options notes blobs schemaSet cached given
  store := given
  shared := given.size != 0

def onEngine (f : Engine → Engine) (h : Host) : Host where
  engine := f h.engine
  store := if h.shared then (f h.engine).violations else h.store
  shared := h.shared

def watch (h : Host) : Host := h.onEngine fun e => { e with violations := e.violations.subscribe.1 }

def call (h : Host) (c : EngineCall) : Host := h.onEngine c.after

def calls (h : Host) (cs : List EngineCall) : Host := cs.foldl call h

/-- Host and engine have hold of one store, which all that was done since it was handed over has left as
work of the engine does. -/
structure Joined (given : ViolationStore) (h : Host) : Prop where
  shared : h.shared = true
  same : h.store = h.engine.violations
  worked : ViolationStore.Worked given.subscribe.1 h.store

variable {given : ViolationStore} {h : Host}

theorem joined_create (options : EngineOptions) (notes : NoteStore) (blobs : BlobStore) (schemaSet : SchemaSet)
    (cached : Bool) (some : given.size ≠ 0) :
    Joined given (create options notes blobs schemaSet cached given).watch := by
  have shared : (given.size != 0) = true := bne_iff_ne.2 some
  have used : (Engine.create options notes blobs schemaSet cached given).violations = given := if_neg some
  have store : (create options notes blobs schemaSet cached given).watch.store = given.subscribe.1 := by
    refine (if_pos shared).trans ?_
    dsimp only [create]
    rw [used]
  refine ⟨shared, if_pos shared, ?_⟩
  rw [store]
  exact .refl _

theorem Joined.call (joined : Joined given h) (c : EngineCall) : Joined given (h.call c) := by
  have now : (h.call c).store = (c.after h.engine).violations := if_pos joined.shared
  refine ⟨joined.shared, now, ?_⟩
  rw [now]
  refine joined.worked.trans ?_
  rw [joined.same]
  exact c.works h.engine

theorem Joined.calls (joined : Joined given h) (cs : List EngineCall) : Joined given (h.calls cs) := by
  induction cs generalizing h with
  | nil => exact joined
  | cons c rest ih => exact ih (joined.call c)

theorem after_validated {cancel : Cancellation} {e after : Engine} {finished : Bool}
    (result : (validateAll cancel).run.run e = (.ok finished, after)) :
    (EngineCall.validated cancel).after e = after := by
  have same : discard (validateAll cancel) = validateAll cancel >>= fun _ => pure ⟨⟩ := rfl
  rw [EngineCall.after, EngineCall.work, same, run_bind, result]
  rfl

/-- The engine reports into a store that was handed to it, and all listeners of the store, the last one of
which came right after the engine was made, were called equally often. -/
structure Reports (given : ViolationStore) (h : Host) : Prop where
  same : h.store = h.engine.violations
  equally : ∃ n, h.store.listeners =
    given.listeners.map (fun l => if l.active then { l with calls := l.calls + n } else l) ++ [{ calls := n }]
  once : given.depth = 0 → ∀ cancel, Leads (validateAll cancel) h.engine fun _ _ =>
    (h.call (.validated cancel)).store.listeners = h.store.listeners.map Listener.notify

theorem Joined.reported (joined : Joined given h) : Reports given h where
  same := joined.same
  equally := by
    obtain ⟨n, told⟩ := joined.worked.equally
    refine ⟨n, told.trans ?_⟩
    simp [ViolationStore.subscribe, funext (Listener.notify_iterate n)]
  once outside cancel := by
    intro finished after result
    have outside : h.engine.violations.depth = 0 := by
      rw [← joined.same, joined.worked.depth]
      exact outside
    have told := validateAll_notifies outside cancel finished after result
    rw [(joined.call _).same, joined.same]
    exact (congrArg (·.violations.listeners) (after_validated result)).trans told

/-- Whatever a host hands over, if it holds violations, is what the engine reports into. -/
theorem reports (options : EngineOptions) (notes : NoteStore) (blobs : BlobStore) (schemaSet : SchemaSet)
    (cached : Bool) (given : ViolationStore) (some : given.size ≠ 0) (cs : List EngineCall) :
    Reports given ((create options notes blobs schemaSet cached given).watch.calls cs) :=
  ((joined_create options notes blobs schemaSet cached some).calls cs).reported

/-- A store that says of one book that it lacks its number. One listener waits at it, and one has left. -/
def lacking : ViolationStore where
  byNote := ⟨[("Emma.md", [missingNumber "books" "Emma.md"])]⟩
  listeners := [{}, { calls := 2, active := false }]

theorem lacking_reports : lacking.size ≠ 0 ∧
    Reports lacking ((create {} ⟨[unnumbered "Dune.md"]⟩ {} ⟨[register "books"], {}⟩ true lacking).watch.calls
      [.validated none, .told (.deleted "Dune.md")]) :=
  have some : lacking.size ≠ 0 := by decide
  ⟨some, reports _ _ _ _ _ _ some _⟩

theorem store_calls (apart : h.shared = false) (cs : List EngineCall) : (h.calls cs).store = h.store := by
  have kept : ∀ (f : Engine → Engine) {h : Host}, h.shared = false → (h.onEngine f).store = h.store :=
    fun f h apart => if_neg (by rw [apart]; exact Bool.false_ne_true)
  induction cs generalizing h with
  | nil => rfl
  | cons c rest ih => exact (ih (h := h.call c) apart).trans (kept _ apart)

theorem calls_apart (options : EngineOptions) (notes : NoteStore) (blobs : BlobStore) (schemaSet : SchemaSet)
    (cached : Bool) (given : ViolationStore) (none : given.size = 0) (cs : List EngineCall) :
    ((create options notes blobs schemaSet cached given).watch.calls cs).store = given := by
  have apart : (given.size != 0) = false := by simp [none]
  refine (store_calls apart cs).trans (if_neg ?_)
  rw [show (create options notes blobs schemaSet cached given).shared = false from apart]
  exact Bool.false_ne_true

def listening : Host :=
  (create {} ⟨[unnumbered "Dune.md"]⟩ {} ⟨[register "books"], {}⟩ true { listeners := [{}] }).watch

theorem listening_sound : listening.engine.Startable ∧ (started listening.engine).Sound := by
  have begun : ∃ b x, started listening.engine =
      { registered {} b x ["books"] [unnumbered "Dune.md"] with violations := { listeners := [{}] } } := ⟨_, _, rfl⟩
  obtain ⟨b, x, begun⟩ := begun
  have distinct : listening.engine.notes.Distinct := by
    unfold NoteStore.Distinct
    decide
  refine ⟨(started_indexed (fun ready => Bool.noConfusion ready) distinct (by decide)).1, ?_⟩
  rw [begun]
  refine (registered_sound {} b x (by decide) (by decide) ?_ ?_).keeps ((Keeps.refl _).onViolations _)
  · intro id _ d mem
    obtain rfl := List.mem_singleton.1 mem
    exact ⟨_, valid_unnumbered id "Dune.md"⟩
  · intro id _
    cbv

/-- A full validation finds that the number is missing and tells the listener of the engine's store. The
store of the host stays empty, and its listener is not called. -/
theorem listening_apart :
    missingNumber "books" "Dune.md" ∈ (listening.calls [.validated none]).engine.violations.ofNote "Dune.md" ∧
    (listening.calls [.validated none]).engine.violations.listeners = [{ calls := 1 }] ∧
    (listening.calls [.validated none]).store = { listeners := [{ calls := 0 }] } := by
  obtain ⟨startable, sound⟩ := listening_sound
  obtain ⟨finished, after, result, _, keeps, exact⟩ := (validateAll_gives startable sound).run
  have called : (listening.calls [.validated none]).engine = after := after_validated result
  rw [called]
  refine ⟨?_, validateAll_notifies rfl none finished after result, store_calls rfl _⟩
  have books : register "books" ∈ after.schemaSet.schemas := by
    rw [keeps.schemaSet, (alike_started _).schemaSet]
    exact List.mem_singleton.2 rfl
  have dune : unnumbered "Dune.md" ∈ after.notes.notes := by
    rw [keeps.notes, (alike_started _).notes]
    exact List.mem_singleton.2 rfl
  have checked : after.check (unnumbered "Dune.md") (register "books") = .ok [missingNumber "books" "Dune.md"] := by
    rw [keeps.alike.check, (alike_started _).check]
    unfold check
    rw [show listening.engine.schemaSet.registry.validate (unnumbered "Dune.md").id
      (unnumbered "Dune.md").frontmatter (register "books") listening.engine.options.checkUnknown = _ from
        valid_unnumbered "books" "Dune.md"]
    rfl
  have said := exact.own_eq books (unnumbered "Dune.md").id
  rw [ownOf_accepted (sound.keeps keeps).notes (mem_chosen.2 ⟨dune, register_accepts _ _⟩),
    found_of_check checked] at said
  have inside : missingNumber "books" "Dune.md" ∈
      ViolationStore.own (register "books").id (after.violations.ofNote (unnumbered "Dune.md").id) := by
    rw [said]
    exact List.mem_singleton.2 rfl
  exact (ViolationStore.mem_own.1 inside).1

end Host

end VaultSchema
