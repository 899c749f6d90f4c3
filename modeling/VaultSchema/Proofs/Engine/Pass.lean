import VaultSchema.Engine.Pass
import VaultSchema.Proofs.Engine.Duplicates

/-! A pass records for every note that it comes to what its check finds, puts the reports of the
schema on these notes right, and leaves alone what other schemas say. One pass after the other, from
an empty store, makes the engine exact. -/

set_option autoImplicit false

namespace VaultSchema

open ViolationStore (own dup Observed)
open Observation (report Once)

/-- What a pass over the notes of a schema has changed after some of them. -/
structure ViolationStore.Passed (s : Schema) (found : Document → List Violation)
    (done : List Document) (before after : ViolationStore) : Prop where
  tidy : after.Tidy
  here : ∀ d ∈ done, own s.id (after.ofNote d.id) = found d
  elsewhere : ∀ other id, (s.id = other → ∀ d ∈ done, d.id ≠ id) →
    own other (after.ofNote id) = own other (before.ofNote id)
  dups : ∀ other field id, dup other field (after.ofNote id) =
    if s.id = other ∧ s.hasUniqueFields = true then
      report s.id (done.flatMap s.observations) id field
    else dup other field (before.ofNote id)

namespace ViolationStore

variable {s : Schema} {found : Document → List Violation} {done : List Document}
  {before after : ViolationStore}

theorem Passed.congr {a : ViolationStore} (h : Passed s found done before after)
    (same : a.byNote = after.byNote) : Passed s found done before a := by
  refine ⟨h.tidy.congr same, ?_, ?_, ?_⟩
  · intro d mem
    rw [ofNote_congr same]
    exact h.here d mem
  · intro other id apart
    rw [ofNote_congr same]
    exact h.elsewhere other id apart
  · intro other field id
    rw [ofNote_congr same]
    exact h.dups other field id

theorem Passed.mem_before (h : Passed s found done before after) {id : String} {v : Violation}
    (other : s.id ≠ v.schema) (held : v ∈ after.ofNote id) : v ∈ before.ofNote id :=
  mem_of_slices held (h.elsewhere _ _ fun same => absurd same other)
    ((h.dups _ _ _).trans (if_neg fun both => other both.1))

theorem Passed.visit {d : Document} {next : ViolationStore} (h : Passed s found done before after)
    (new : ∀ c ∈ done, c.id ≠ d.id) (stamped : Stamped d.id s.id (found d))
    (unique : s.hasUniqueFields = true → Observed s.id ((done ++ [d]).flatMap s.observations)
      (after.setSchema d.id s.id (found d)) next)
    (plain : s.hasUniqueFields = false → next = after.setSchema d.id s.id (found d)) :
    Passed s found (done ++ [d]) before next := by
  have tidy := h.tidy.setSchema d.id s.id (found d)
  have owns : ∀ other id, own other (next.ofNote id) =
      own other ((after.setSchema d.id s.id (found d)).ofNote id) := by
    cases unq : s.hasUniqueFields with
    | true => exact (unique unq).owns
    | false =>
      rw [plain unq]
      exact fun _ _ => rfl
  refine ⟨?_, ?_, ?_, ?_⟩
  · cases unq : s.hasUniqueFields with
    | true => exact (unique unq).tidy
    | false =>
      rw [plain unq]
      exact tidy
  · intro c mem
    rw [owns, own_setSchema stamped]
    rcases List.mem_append.1 mem with mem | mem
    · rw [if_neg fun same => new c mem same.1.symm, h.here c mem]
    · rw [List.mem_singleton] at mem
      subst mem
      rw [if_pos ⟨rfl, rfl⟩]
  · intro other id apart
    have notHere : ¬ (d.id = id ∧ s.id = other) := fun same => apart same.2 d (by simp) same.1
    rw [owns, own_setSchema stamped, if_neg notHere]
    exact h.elsewhere other id fun same c mem => apart same c (by simp [mem])
  · intro other field id
    cases unq : s.hasUniqueFields with
    | true =>
      rw [(unique unq).dups, dup_setSchema stamped, h.dups, unq]
      split
      · rename_i same
        rw [if_pos ⟨same, rfl⟩]
      · rename_i differ
        rw [if_neg fun same => differ same.1, if_neg fun same => differ same.1]
    | false =>
      rw [plain unq, dup_setSchema stamped, h.dups, unq]
      simp

end ViolationStore

namespace Engine

variable {e : Engine} {s : Schema}

theorem gives_validateNote {d : Document} {p : List Violation → Engine → Prop} :
    Gives (validateNote d s) e p ↔ ∃ vs, e.check d s = .ok vs ∧
      p vs { e with
        violations := e.violations.setSchema d.id s.id vs
        cache := e.cache.map fun c => c.addSchema d.id d.mtime s.id
          ((e.violations.setSchema d.id s.id vs).ofNote d.id) } := by
  unfold validateNote
  simp only [gives_bind, gives_get, gives_ofCheck, gives_onViolations, gives_onCache, gives_pure]

/-- The notes that a pass comes to, whether these are all, and when further passes are cancelled. -/
def reach (o : EngineOptions) (position : Nat) (cancel : Cancellation) :
    List Document → List Document × Bool × Cancellation
  | [] => ([], true, cancel)
  | d :: rest =>
    let (stop, cancel) := if atBoundary o position then cancel.boundary else (false, cancel)
    if stop then ([], false, cancel)
    else (d :: (reach o (position + 1) cancel rest).1, (reach o (position + 1) cancel rest).2)

abbrev reached (e : Engine) (s : Schema) (cancel : Cancellation) : List Document × Bool × Cancellation :=
  reach e.options 0 cancel (e.chosen s)

theorem reach_none (o : EngineOptions) (position : Nat) (ds : List Document) :
    reach o position none ds = (ds, true, none) := by
  induction ds generalizing position with
  | nil => rfl
  | cons d rest ih =>
    have on : (if atBoundary o position then Cancellation.boundary none else (false, none)) =
        (false, none) := by split <;> rfl
    rw [reach, on]
    simp [ih]

theorem reach_isPrefix (o : EngineOptions) (position : Nat) (cancel : Cancellation) (ds : List Document) :
    (reach o position cancel ds).1 <+: ds := by
  induction ds generalizing position cancel with
  | nil => exact List.prefix_refl _
  | cons d rest ih =>
    rw [reach]
    generalize (if atBoundary o position then cancel.boundary else (false, cancel)) = boundary
    obtain ⟨stop, cancel⟩ := boundary
    cases stop with
    | true => exact List.nil_prefix
    | false => exact List.cons_prefix_cons.2 ⟨rfl, ih _ _⟩

theorem reach_finished {o : EngineOptions} {position : Nat} {cancel : Cancellation} {ds : List Document}
    (finished : (reach o position cancel ds).2.1 = true) : (reach o position cancel ds).1 = ds := by
  induction ds generalizing position cancel with
  | nil => rfl
  | cons d rest ih =>
    rw [reach] at finished ⊢
    generalize (if atBoundary o position then cancel.boundary else (false, cancel)) = boundary
      at finished ⊢
    obtain ⟨stop, cancel⟩ := boundary
    cases stop with
    | true => cases finished
    | false => exact congrArg (d :: ·) (ih finished)

theorem observe_of_not_unique (none : s.hasUniqueFields = false) (seen : UniqueValues) (d : Document) :
    seen.observe s d.id d.frontmatter = (seen, .ok []) := by
  have empty : s.uniqueGroups = [] := by
    simpa [Schema.uniqueGroups, Schema.hasUniqueFields] using none
  simp [UniqueValues.observe, empty]

variable {found : Document → List Violation} {done : List Document} {before : ViolationStore}
  {seen : UniqueValues}

theorem visit_gives {d : Document} (new : ∀ c ∈ done, c.id ≠ d.id)
    (once : Once ((done ++ [d]).flatMap s.observations))
    (gathers : seen.Gathers (done.flatMap s.observations))
    (passed : ViolationStore.Passed s found done before e.violations)
    (check : e.check d s = .ok (found d)) {vs : List Violation}
    (observed : (seen.observe s d.id d.frontmatter).2 = .ok vs) :
    Gives (visit s seen d) e fun next after => Keeps e after ∧
      next = (seen.observe s d.id d.frontmatter).1 ∧
      next.Gathers ((done ++ [d]).flatMap s.observations) ∧
      ViolationStore.Passed s found (done ++ [d]) before after.violations := by
  have stamped : ViolationStore.Stamped d.id s.id (found d) :=
    found_of_check check ▸ e.found_stamped d s
  unfold visit
  simp only [gives_bind, gives_discard, gives_validateNote]
  refine ⟨_, check, ?_⟩
  have keeps : Keeps e { e with
      violations := e.violations.setSchema d.id s.id (found d)
      cache := e.cache.map fun c => c.addSchema d.id d.mtime s.id
        ((e.violations.setSchema d.id s.id (found d)).ofNote d.id) } :=
    ((Keeps.refl e).onCache _).onViolations _
  have all : (done ++ [d]).flatMap s.observations =
      done.flatMap s.observations ++ s.observations d := by simp
  cases unq : s.hasUniqueFields with
  | false =>
    have now := passed.visit new stamped (fun h => by rw [unq] at h; cases h) fun _ => rfl
    rw [if_neg Bool.false_ne_true, gives_pure, observe_of_not_unique unq, all,
      observations_of_not_unique unq, List.append_nil]
    exact ⟨keeps, rfl, gathers, now⟩
  | true =>
    have start : Observed s.id (done.flatMap s.observations)
        (e.violations.setSchema d.id s.id (found d)) (e.violations.setSchema d.id s.id (found d)) := by
      refine ⟨passed.tidy.setSchema _ _ _, fun _ => rfl, ?_⟩
      intro field id
      rw [ViolationStore.dup_setSchema stamped, passed.dups, if_pos ⟨rfl, unq⟩]
    rw [all] at once
    rw [if_pos rfl]
    refine (Observed.observe_gives (e := { e with violations := _, cache := _ }) start gathers once
      observed).mono ?_
    rintro next after ⟨further, same, more, now⟩
    rw [← all] at more now
    refine ⟨keeps.trans further, same, more, passed.visit new stamped (fun _ => now) ?_⟩
    intro none
    rw [unq] at none
    cases none

theorem visitAll_gives {ds : List Document} {position : Nat} {cancel : Cancellation}
    (distinct : ((done ++ ds).map (·.id)).Nodup)
    (gathers : seen.Gathers (done.flatMap s.observations))
    (passed : ViolationStore.Passed s found done before e.violations)
    (checks : ∀ d ∈ ds, e.check d s = .ok (found d)) (scanned : seen.scan s ds = .ok ()) :
    Gives (visitAll s seen position cancel ds) e fun r after =>
      r = (reach e.options position cancel ds).2 ∧ Keeps e after ∧ ViolationStore.Passed s found
        (done ++ (reach e.options position cancel ds).1) before after.violations := by
  induction ds generalizing e seen done position cancel with
  | nil => exact ⟨rfl, .refl e, by simpa [reach] using passed⟩
  | cons d rest ih =>
    have new : ∀ c ∈ done, c.id ≠ d.id := fun c mem => Text.key_ne_of_nodup distinct mem
    rw [List.append_cons] at distinct
    have once : Once ((done ++ [d]).flatMap s.observations) := by
      refine s.once_observations ?_
      rw [List.map_append] at distinct
      exact (List.nodup_append.1 distinct).1
    obtain ⟨vs, observed, scanned⟩ := Outcome.bind_eq_ok.1 scanned
    rw [visitAll, reach]
    simp only [gives_bind, gives_get]
    generalize (if atBoundary e.options position then cancel.boundary else (false, cancel)) = boundary
    obtain ⟨stop, cancel⟩ := boundary
    cases stop with
    | true => exact ⟨rfl, .refl e, by simpa using passed⟩
    | false =>
      simp only [Bool.false_eq_true, if_false, gives_bind]
      refine (visit_gives new once gathers passed (checks d (by simp)) observed).mono ?_
      rintro next mid ⟨keeps, rfl, more, now⟩
      refine (ih distinct more now ?_ scanned).mono ?_
      · intro c mem
        rw [keeps.alike.check, checks c (by simp [mem])]
      · rintro r after ⟨same, further, all⟩
        rw [keeps.options] at same all
        rw [List.append_cons]
        exact ⟨same, keeps.trans further, all⟩

theorem updateHash_eq_ok {c : Cache} {r : Registry} {digest : String}
    (printed : s.fingerprint r = .ok digest) :
    c.updateHash s r = .ok (Cache.changed { c with hashes := c.hashes.put s.id digest }) := by
  unfold Cache.updateHash
  rw [printed]
  rfl

theorem validateSchema_gives (sound : e.Sound) (mem : s ∈ e.schemaSet.schemas)
    (tidy : e.violations.Tidy) (enabled : s.enabled = true) (cancel : Cancellation) :
    Gives (validateSchema s cancel) e fun r after => r = (e.reached s cancel).2 ∧ Keeps e after ∧
      ViolationStore.Passed s (fun d => e.found d s) (e.reached s cancel).1 e.violations
        after.violations := by
  -- The walk over the notes, whether or not reports were dropped before it.
  have walk {st : ViolationStore}
      (start : ViolationStore.Passed s (fun d => e.found d s) [] e.violations st) :
      Gives (visitAll s {} 0 cancel (e.chosen s)) { e with violations := st } fun r after =>
        r = (e.reached s cancel).2 ∧ Keeps e after ∧ ViolationStore.Passed s (fun d => e.found d s)
          (e.reached s cancel).1 e.violations after.violations := by
    have keeps : Keeps e { e with violations := st } := (Keeps.refl e).onViolations st
    refine (visitAll_gives (e := { e with violations := st }) (sound.nodup_chosen s)
      UniqueValues.gathers_empty start ?_ (sound.observes s mem)).mono ?_
    · intro d inside
      obtain ⟨there, accepts⟩ := mem_chosen.1 inside
      rw [keeps.alike.check, sound.check mem there accepts]
    · rintro r after ⟨same, more, passed⟩
      exact ⟨same, keeps.trans more, passed⟩
  have begun : Gives (do
      if s.hasUniqueFields then onViolations fun v => v.removeKind s.id .duplicateValue
      visitAll s {} 0 cancel (e.chosen s))
      { e with violations := e.violations.beginBatch } fun r after =>
        r = (e.reached s cancel).2 ∧ Keeps e after ∧ ViolationStore.Passed s (fun d => e.found d s)
          (e.reached s cancel).1 e.violations after.violations := by
    cases unq : s.hasUniqueFields with
    | false =>
      rw [if_neg Bool.false_ne_true]
      refine walk ⟨tidy, by simp, fun _ _ _ => rfl, ?_⟩
      intro other field id
      rw [unq]
      simp
    | true =>
      rw [if_pos rfl, gives_bind, gives_onViolations]
      have clean := ViolationStore.observed_removeKind tidy.beginBatch s.id
      refine walk ⟨clean.tidy, by simp, fun other id _ => clean.owns other id, ?_⟩
      intro other field id
      rw [unq]
      simpa using clean.dups other field id
  unfold validateSchema
  simp only [enabled, Bool.not_true, Bool.false_eq_true, if_false, gives_bind, gives_get, gives_ofValue,
    gives_batched]
  refine ⟨e.chosen s, sound.selected mem, begun.mono ?_⟩
  rintro r mid ⟨same, keeps, passed⟩
  obtain ⟨finished, next⟩ := r
  have closed := passed.congr (ViolationStore.byNote_endBatch mid.violations)
  cases finished with
  | false => exact ⟨same, keeps.onViolations mid.violations.endBatch, closed⟩
  | true =>
    simp only [if_true, gives_bind, gives_get]
    cases cache : mid.cache with
    | none => exact ⟨same, cache ▸ keeps.onViolations mid.violations.endBatch, closed⟩
    | some c =>
      obtain ⟨digest, printed⟩ :=
        sound.fingerprints (by rw [← keeps.cached, cache]; rfl) s mem enabled
      simp only [gives_bind, gives_ofValue, gives_set, gives_pure]
      refine ⟨_, updateHash_eq_ok (by rw [keeps.schemaSet]; exact printed), same, ?_, closed⟩
      refine ⟨keeps.options, keeps.notes, keeps.blobs, keeps.index, keeps.schemaSet, ?_⟩
      rw [← keeps.cached, cache]
      rfl

theorem ownOf_not_accepted {id : String} (none : ∀ d ∈ e.chosen s, d.id ≠ id) : e.ownOf s id = [] := by
  unfold ownOf
  cases look : e.notes.find? id with
  | none => rfl
  | some d =>
    dsimp only
    split
    · rename_i accepts
      exact (none d (mem_chosen.2 ⟨NoteStore.mem_of_find? look, accepts⟩)
        (NoteStore.id_of_find? look)).elim
    · rfl

theorem ownOf_accepted (distinct : e.notes.Distinct) {d : Document} (mem : d ∈ e.chosen s) :
    e.ownOf s d.id = e.found d s := by
  obtain ⟨there, accepts⟩ := mem_chosen.1 mem
  unfold ownOf
  rw [(NoteStore.has_iff distinct).2 there]
  simp [accepts]

theorem ExactFor.silent {schemas : List Schema} {ready : String → Prop} {due : Schema → Prop}
    (exact : e.ExactFor schemas ready due) (new : ∀ t ∈ schemas, t.id ≠ s.id) (id : String) :
    own s.id (e.violations.ofNote id) = [] ∧ ∀ field, dup s.id field (e.violations.ofNote id) = [] :=
  ⟨(exact.unknown new id).1, (exact.unknown new id).2⟩

theorem ExactFor.passed {after : Engine} {schemas : List Schema} {ready : String → Prop}
    {due : Schema → Prop} (exact : e.ExactFor schemas ready due) (distinct : e.notes.Distinct)
    (new : ∀ t ∈ schemas, t.id ≠ s.id) (enabled : s.enabled = true) (keeps : Keeps e after)
    (passed : ViolationStore.Passed s (fun d => e.found d s) (e.chosen s) e.violations after.violations) :
    after.ExactFor (schemas ++ [s]) ready due := by
  refine ⟨passed.tidy, ?_, ?_, ?_⟩
  · intro id v held
    by_cases its : s.id = v.schema
    · exact ⟨s, by simp, its⟩
    · obtain ⟨t, inside, same⟩ := exact.known id v (passed.mem_before its held)
      exact ⟨t, by simp [inside], same⟩
  · intro t inside id done
    rw [keeps.alike.ownOf]
    rcases List.mem_append.1 inside with inside | inside
    · rw [passed.elsewhere _ _ fun h => absurd h.symm (new t inside), exact.owns t inside id done]
    · rw [List.mem_singleton] at inside
      subst inside
      by_cases here : ∃ d ∈ e.chosen t, d.id = id
      · obtain ⟨d, chosen, rfl⟩ := here
        rw [passed.here d chosen, ownOf_accepted distinct chosen]
      · have none : ∀ d ∈ e.chosen t, d.id ≠ id := fun d chosen id => here ⟨d, chosen, id⟩
        rw [passed.elsewhere _ _ fun _ => none, (exact.silent new id).1, ownOf_not_accepted none]
  · intro t inside notDue id field
    rw [keeps.alike.reportOf, passed.dups]
    rcases List.mem_append.1 inside with inside | inside
    · rw [if_neg fun h => new t inside h.1.symm, exact.dups t inside notDue]
    · rw [List.mem_singleton] at inside
      subst inside
      split
      · rfl
      · rename_i plain
        rw [(exact.silent new id).2, reportOf_mute]
        simpa [Mute, enabled] using plain

theorem ExactFor.disabled {schemas : List Schema} {ready : String → Prop} {due : Schema → Prop}
    (exact : e.ExactFor schemas ready due) (new : ∀ t ∈ schemas, t.id ≠ s.id) (enabled : s.enabled = false) :
    e.ExactFor (schemas ++ [s]) ready due := by
  have off : e.chosen s = [] := by
    simp [chosen, List.filter_eq_nil_iff, accepts_of_not_enabled enabled]
  refine ⟨exact.tidy, ?_, ?_, ?_⟩
  · intro id v held
    obtain ⟨t, inside, same⟩ := exact.known id v held
    exact ⟨t, by simp [inside], same⟩
  · intro t inside id done
    rcases List.mem_append.1 inside with inside | inside
    · exact exact.owns t inside id done
    · rw [List.mem_singleton] at inside
      subst inside
      rw [(exact.silent new id).1, ownOf_not_accepted (by simp [off])]
  · intro t inside notDue id field
    rcases List.mem_append.1 inside with inside | inside
    · exact exact.dups t inside notDue id field
    · rw [List.mem_singleton] at inside
      subst inside
      rw [(exact.silent new id).2, reportOf_mute (by simp [Mute, enabled])]

theorem ExactFor.validateSchema_gives {schemas : List Schema} {ready : String → Prop}
    {due : Schema → Prop} (exact : e.ExactFor schemas ready due) (sound : e.Sound)
    (mem : s ∈ e.schemaSet.schemas) (new : ∀ t ∈ schemas, t.id ≠ s.id) :
    Gives (validateSchema s none) e fun r after =>
      r = (true, none) ∧ Keeps e after ∧ after.ExactFor (schemas ++ [s]) ready due := by
  cases enabled : s.enabled with
  | false =>
    unfold validateSchema
    simp only [enabled, Bool.not_false, if_true, gives_pure]
    exact ⟨trivial, .refl e, exact.disabled new enabled⟩
  | true =>
    refine (Engine.validateSchema_gives sound mem exact.tidy enabled none).mono ?_
    rintro r after ⟨same, keeps, passed⟩
    rw [reached, reach_none] at same passed
    exact ⟨same, keeps, exact.passed sound.notes new enabled keeps passed⟩

theorem validateSchemas_gives {done rest : List Schema} (sound : e.Sound)
    (all : e.schemaSet.schemas = done ++ rest)
    (exact : e.ExactFor done (fun _ => True) fun _ => False) :
    Gives (validateSchemas none rest) e fun r after => r = true ∧ Keeps e after ∧ after.Exact := by
  induction rest generalizing e done with
  | nil =>
    refine ⟨rfl, .refl e, ?_⟩
    unfold Exact ExactBut
    rw [all, List.append_nil]
    exact exact
  | cons s rest ih =>
    have new : ∀ t ∈ done, t.id ≠ s.id := fun t => Text.key_ne_of_nodup (all ▸ sound.schemas)
    rw [validateSchemas, gives_bind]
    refine (exact.validateSchema_gives sound (by simp [all]) new).mono ?_
    rintro _ mid ⟨rfl, keeps, now⟩
    refine (ih (sound.keeps keeps) ?_ now).mono ?_
    · rw [keeps.schemaSet, all, List.append_assoc]
      rfl
    · rintro r after ⟨same, more, exact⟩
      exact ⟨same, keeps.trans more, exact⟩

def started (e : Engine) : Engine :=
  if e.index.ready then e
  else
    { e with
      index := (e.index.start e.notes e.blobs).value
      blobs := (e.index.start e.notes e.blobs).blobs }

def Startable (e : Engine) : Prop :=
  e.index.ready = true ∨ (e.index.start e.notes e.blobs).fault = none

theorem gives_startIndex (startable : (e.index.start e.notes e.blobs).fault = none)
    {p : Unit → Engine → Prop} : Gives startIndex e p ↔
      p () { e with
        index := (e.index.start e.notes e.blobs).value
        blobs := (e.index.start e.notes e.blobs).blobs } := by
  unfold startIndex
  simp only [gives_bind, gives_get, gives_set, startable, gives_pure]

theorem alike_started (e : Engine) : Alike e (started e) := by
  unfold started
  split
  · exact ⟨rfl, rfl, rfl⟩
  · exact ⟨rfl, rfl, rfl⟩

theorem cacheUnmatched_gives (notes : List Document) :
    Gives (each cacheUnmatched notes) e fun _ after =>
      Keeps e after ∧ after.violations = e.violations := by
  refine gives_each (fun _ after => Keeps e after ∧ after.violations = e.violations)
    ⟨.refl e, rfl⟩ ?_
  rintro _ d _ _ now ⟨keeps, same⟩
  unfold cacheUnmatched
  rw [gives_bind, gives_get, gives_onCache]
  exact ⟨keeps.onCache _, same⟩

def fullPass (cancel : Cancellation) : Run Bool := batched do
  onViolations (·.clear)
  onCache (·.clear)
  let finished ← validateSchemas cancel (← get).schemaSet.schemas
  if finished then
    onViolations (·.mark)
    each cacheUnmatched (← get).notes.listed
  return finished

theorem run_validateAll (startable : e.Startable) (cancel : Cancellation) :
    (validateAll cancel).run.run e = (fullPass cancel).run.run (started e) := by
  unfold started
  cases ready : e.index.ready with
  | true =>
    change (if !e.index.ready then _ else fullPass cancel).run.run e = _
    rw [ready]
    rfl
  | false =>
    have fault := startable.resolve_left (by rw [ready]; exact Bool.false_ne_true)
    obtain ⟨_, after, ran, rfl⟩ := ((gives_startIndex fault).2 rfl :
      Gives startIndex e fun _ after => after = { e with
        index := (e.index.start e.notes e.blobs).value
        blobs := (e.index.start e.notes e.blobs).blobs }).run
    change (if !e.index.ready then startIndex >>= fun _ => fullPass cancel else _).run.run e = _
    rw [ready, if_pos (by rfl), run_bind, ran, if_neg Bool.false_ne_true]

theorem gives_validateAll (startable : e.Startable) {cancel : Cancellation}
    {p : Bool → Engine → Prop} : Gives (validateAll cancel) e p ↔ Gives (fullPass cancel) (started e) p := by
  unfold Gives
  rw [run_validateAll startable]

theorem leads_validateAll (startable : e.Startable) {cancel : Cancellation}
    {p : Bool → Engine → Prop} : Leads (validateAll cancel) e p ↔ Leads (fullPass cancel) (started e) p := by
  unfold Leads
  rw [run_validateAll startable]

def emptied (e : Engine) : Engine :=
  { e with violations := e.violations.beginBatch.clear, cache := e.cache.map Cache.clear }

theorem keeps_emptied (e : Engine) : Keeps e (emptied e) := ((Keeps.refl e).onCache _).onViolations _

theorem exactFor_emptied (e : Engine) : (emptied e).ExactFor [] (fun _ => True) fun _ => False :=
  ⟨ViolationStore.tidy_clear _, by simp [emptied], by simp, by simp⟩

/-- Validation from the start makes the engine exact, whatever it held. -/
theorem validateAll_gives (startable : e.Startable) (sound : (started e).Sound) :
    Gives (validateAll none) e fun finished after =>
      finished = true ∧ Keeps (started e) after ∧ after.Exact := by
  rw [gives_validateAll startable]
  generalize started e = f at sound
  unfold fullPass
  simp only [gives_batched, gives_bind, gives_onViolations, gives_onCache, gives_get]
  change Gives (validateSchemas none (emptied f).schemaSet.schemas) (emptied f) _
  refine (validateSchemas_gives (sound.keeps (keeps_emptied f)) rfl (exactFor_emptied f)).mono ?_
  rintro _ mid ⟨rfl, more, exact⟩
  simp only [if_true, gives_bind, gives_onViolations, gives_get]
  refine (cacheUnmatched_gives _).mono ?_
  rintro _ after ⟨further, same⟩
  have keeps := ((Keeps.refl mid).onViolations _).trans further
  refine ⟨rfl, (((keeps_emptied f).trans more).trans keeps).onViolations _,
    exact.congr (keeps.onViolations _).alike ?_⟩
  rw [ViolationStore.byNote_endBatch, same, ViolationStore.byNote_mark]

end Engine
end VaultSchema
