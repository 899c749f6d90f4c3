import VaultSchema.Proofs.Cache.Analysis
import VaultSchema.Proofs.Engine.Settled

/-! What an engine takes over from the cache of an earlier session. The entries that are kept are of
notes that are as they were, and list only schemas that say what they said; so of these notes the
schemas that are not stale say themselves what they should. -/

set_option autoImplicit false

namespace VaultSchema.Engine

open ViolationStore (own dup)

/-- Two schemas say the same of every note, each in its own engine. -/
structure Twin (o e : Engine) (s t : Schema) : Prop where
  id : s.id = t.id
  accepts : ∀ d, s.accepts d = t.accepts d
  found : ∀ d, o.found d s = e.found d t
  observations : ∀ d, s.observations d = t.observations d

/-- Notes with the same path and time are the same, and so are schemas with the same identifier and
fingerprint. -/
structure Succeeds (o e : Engine) : Prop where
  notes : ∀ d ∈ o.notes.notes, ∀ b ∈ e.notes.notes, d.id = b.id → b.mtime.equal d.mtime = true → b = d
  schemas : ∀ s ∈ o.schemaSet.schemas, ∀ t ∈ e.schemaSet.schemas, s.id = t.id →
    ∀ digest, s.fingerprint o.schemaSet.registry = .ok digest →
      t.fingerprint e.schemaSet.registry = .ok digest → Twin o e s t

def fresh (e : Engine) (a : Analysis) : List Schema :=
  e.schemaSet.schemas.filter fun s => !a.schemas.contains s.id

theorem mem_fresh {e : Engine} {a : Analysis} {s : Schema} :
    s ∈ e.fresh a ↔ s ∈ e.schemaSet.schemas ∧ s.id ∉ a.schemas := by
  simp [fresh]

/-- The reports of schemas that are not stale are due to be computed anew, unless no note has changed
or gone. -/
def reportsDue (a : Analysis) (s : Schema) : Prop :=
  (a.notes ≠ [] ∨ a.removed ≠ []) ∧ s.id ∉ a.schemas ∧ ¬ Mute s

def Coverage.reused (e : Engine) (a : Analysis) : Coverage where
  held d := d.id ∉ a.notes
  lists d schema := d.id ∉ a.notes ∧ ∃ s ∈ e.fresh a, s.accepts d = true ∧ s.id = schema
  admits := Concerns e.schemaSet
  printed _ := True
  signs _ := True

variable {o e : Engine} {c read after : Cache} {a : Analysis}

theorem Twin.chosen {s t : Schema} (twin : Twin o e s t) (distinct : o.notes.Distinct)
    (distinct' : e.notes.Distinct) (same : ∀ d, d ∈ o.notes.notes ↔ d ∈ e.notes.notes) :
    o.chosen s = e.chosen t := by
  refine Text.eq_of_ascending Document.id (chosen_strict distinct s) (chosen_strict distinct' t) fun d => ?_
  rw [mem_chosen, mem_chosen, twin.accepts, same]

theorem Twin.reportOf_mute {s t : Schema} (twin : Twin o e s t) (mute : Mute t) (id field : String) :
    o.reportOf s id field = [] := by
  refine reportOf_silent (fun d mem => ?_) id field
  rw [twin.observations]
  exact observations_of_mute mute (by rw [← twin.accepts]; exact (mem_chosen.1 mem).2)

/-- What an engine leaves to a later one. Each schema with a fingerprint says all that it should, and is
listed wherever it applies; whoever says something of a note is listed too. An enabled schema without a
fingerprint is still there, and so is a note without an entry. -/
structure Leaves (k : Coverage) (o e : Engine) (c : Cache) : Prop where
  distinct : o.notes.Distinct
  schemas : (o.schemaSet.schemas.map (·.id)).Nodup
  filed : o.violations.Filed
  kept : Kept k o c
  sure : ∀ id, ¬ k.stray id ∧ ¬ k.behind id
  owns : ∀ s ∈ o.schemaSet.schemas, k.signs s → ∀ id, own s.id (o.violations.ofNote id) = o.ownOf s id
  dups : ∀ s ∈ o.schemaSet.schemas, k.signs s → ∀ id field,
    dup s.id field (o.violations.ofNote id) = o.reportOf s id field
  lists : ∀ s ∈ o.schemaSet.schemas, k.signs s → ∀ d ∈ o.notes.notes, s.accepts d = true → k.lists d s.id
  spoken : ∀ id, ∀ v ∈ o.violations.ofNote id, ∃ d ∈ o.notes.notes, d.id = id ∧ k.lists d v.schema
  admits : ∀ d schema, k.admits d schema → Concerns o.schemaSet d schema
  answers : ∀ s ∈ o.schemaSet.schemas, s.enabled = true →
    (∃ digest, c.hashes.get? s.id = some digest) ∨ ∃ t ∈ e.schemaSet.schemas, t.id = s.id
  held : ∀ d ∈ o.notes.notes, k.held d ∨ ∃ b, e.notes.find? d.id = some b

theorem Settled.leaves (settled : o.Settled) (sound : o.Sound) (cached : o.cache = some c) (e : Engine) :
    Leaves (.full o.schemaSet) o e c := by
  obtain ⟨_, same, kept⟩ := settled.keeping.kept
  rw [cached] at same
  cases same
  refine ⟨sound.notes, sound.schemas, settled.keeping.filed, kept, fun _ => ⟨fun h => h, fun h => h⟩,
    fun s mem _ => settled.exact.own_eq mem, fun s mem _ => settled.exact.dup_eq mem,
    fun s mem _ d _ accepts => ⟨s, mem, accepts, rfl⟩, ?_, fun _ _ concerns => concerns,
    fun s mem enabled => Or.inl (kept.signed.printed s mem ⟨mem, enabled⟩), fun _ _ => Or.inl trivial⟩
  intro id v held
  obtain ⟨s, mem, named, d, inside, here, accepts⟩ := settled.exact.speaker held
  exact ⟨d, inside, here, s, mem, accepts, named⟩

/-- What an engine left, read and analyzed by a later one. -/
structure Reuses (k : Coverage) (o e : Engine) (c read after : Cache) (a : Analysis) : Prop where
  leaves : Leaves k o e c
  distinct : e.notes.Distinct
  succeeds : Succeeds o e
  notes : read.notes = c.notes
  hashes : read.hashes = c.hashes
  analyzed : Cache.Analyzed e.schemaSet e.notes read after a

namespace Reuses

variable {k : Coverage} (h : Reuses k o e c read after a)

include h

theorem entry {id : String} {entry : CachedNote} (found : after.notes.get? id = some entry) :
    ∃ d, e.notes.find? id = some d ∧ o.notes.find? id = some d ∧ c.notes.get? id = some entry ∧
      d.mtime.equal entry.mtime = true ∧ entry.violations = o.violations.ofNote id ∧
      ∀ schema ∈ entry.schemas, schema ∉ a.schemas := by
  obtain ⟨before, b, now, dated, live⟩ := (h.analyzed.kept id entry).1 found
  rw [h.notes] at before
  obtain ⟨stray, behind⟩ := h.leaves.sure id
  obtain ⟨d, there, stamped⟩ := h.leaves.kept.dated id entry before stray
  have same : b = d := by
    refine h.succeeds.notes d (NoteStore.mem_of_find? there) b (NoteStore.mem_of_find? now) ?_ ?_
    · rw [NoteStore.id_of_find? there, NoteStore.id_of_find? now]
    · exact Binary64.equal_trans dated stamped
  subst same
  exact ⟨b, now, there, before, dated, h.leaves.kept.current id entry before stray behind, live⟩

theorem twin {t : Schema} (mem : t ∈ e.fresh a) : ∃ s ∈ o.schemaSet.schemas, k.signs s ∧ Twin o e s t := by
  obtain ⟨mem, live⟩ := mem_fresh.1 mem
  obtain ⟨digest, prints⟩ := h.analyzed.all t mem
  have now := (h.analyzed.printed t.id digest).2 ⟨t, mem, rfl, prints⟩
  have before : c.hashes.get? t.id = some digest := by
    by_contra differs
    rw [← h.hashes] at differs
    exact live ((h.analyzed.stale t.id).2 (Or.inl ⟨digest, now, differs⟩))
  obtain ⟨s, inside, id, signs, printed⟩ := h.leaves.kept.signed.known t.id digest before
  exact ⟨s, inside, signs, h.succeeds.schemas s inside t mem id digest printed prints⟩

theorem listed {d : Document} (mem : d ∈ o.notes.notes) {entry : CachedNote}
    (found : after.notes.get? d.id = some entry) {schema : String} (listed : schema ∈ entry.schemas) :
    ∃ t ∈ e.fresh a, t.id = schema ∧ t.accepts d = true := by
  obtain ⟨_, _, _, before, _, _, live⟩ := h.entry found
  have live := live schema listed
  obtain ⟨s, inside, accepts, named⟩ := h.leaves.admits d schema
    (h.leaves.kept.admits d mem entry before (h.leaves.sure d.id).1 schema listed)
  have enabled : s.enabled = true := by
    by_contra off
    rw [accepts_of_not_enabled (by simpa using off)] at accepts
    cases accepts
  subst named
  have there : ∃ t ∈ e.schemaSet.schemas, t.id = s.id := by
    rcases h.leaves.answers s inside enabled with ⟨digest, printed⟩ | there
    · cases now : after.hashes.get? s.id with
      | none =>
        refine (live ((h.analyzed.stale s.id).2 (Or.inr ⟨?_, now⟩))).elim
        rw [h.hashes, printed]
        rfl
      | some other =>
        obtain ⟨t, mem, id, _⟩ := (h.analyzed.printed s.id other).1 now
        exact ⟨t, mem, id⟩
    · exact there
  obtain ⟨t, known, id⟩ := there
  have fresh : t ∈ e.fresh a := mem_fresh.2 ⟨known, id ▸ live⟩
  obtain ⟨u, there, _, twin⟩ := h.twin fresh
  have same : u = s := List.inj_on_of_nodup_map h.leaves.schemas there inside (twin.id.trans id)
  exact ⟨t, fresh, id, by rw [← twin.accepts, same, accepts]⟩

theorem speaker {id : String} {entry : CachedNote} (found : after.notes.get? id = some entry)
    {v : Violation} (held : v ∈ entry.violations) : ∃ t ∈ e.fresh a, t.id = v.schema := by
  obtain ⟨_, _, _, before, _, current, _⟩ := h.entry found
  rw [current] at held
  obtain ⟨d, mem, rfl, lists⟩ := h.leaves.spoken id v held
  obtain ⟨_, same, listed⟩ := h.leaves.kept.lists d mem v.schema lists
  rw [before] at same
  cases same
  obtain ⟨t, fresh, named, _⟩ := h.listed mem found listed
  exact ⟨t, fresh, named⟩

theorem same_notes (unchanged : a.notes = []) (complete : a.removed = []) (d : Document) :
    d ∈ o.notes.notes ↔ d ∈ e.notes.notes := by
  constructor
  · intro mem
    have there : ∃ b, e.notes.find? d.id = some b := by
      refine (h.leaves.held d mem).elim (fun held => ?_) fun there => there
      obtain ⟨entry, before⟩ := h.leaves.kept.held d mem held
      cases now : e.notes.find? d.id with
      | some b => exact ⟨b, rfl⟩
      | none =>
        have gone := (h.analyzed.removed d.id).2 ⟨⟨entry, by rw [h.notes]; exact before⟩, now⟩
        rw [complete] at gone
        cases gone
    obtain ⟨b, now⟩ := there
    cases kept : after.notes.get? d.id with
    | none =>
      have changed := (h.analyzed.notes d.id).2 ⟨⟨b, now⟩, kept⟩
      rw [unchanged] at changed
      cases changed
    | some entry =>
      obtain ⟨x, there, before, _⟩ := h.entry kept
      rw [(NoteStore.has_iff h.leaves.distinct).2 mem] at before
      cases before
      exact NoteStore.mem_of_find? there
  · intro mem
    have now := (NoteStore.has_iff h.distinct).2 mem
    cases kept : after.notes.get? d.id with
    | none =>
      have changed := (h.analyzed.notes d.id).2 ⟨⟨d, now⟩, kept⟩
      rw [unchanged] at changed
      cases changed
    | some entry =>
      obtain ⟨x, there, before, _⟩ := h.entry kept
      rw [show e.notes.find? d.id = some d from now] at there
      cases there
      exact NoteStore.mem_of_find? before

theorem ofNote (v : ViolationStore) (id : String) :
    (v.clear.add after.violations).ofNote id =
      ((after.notes.get? id).map (·.violations)).getD [] := by
  rw [ViolationStore.ofNote_add, ViolationStore.ofNote_clear, List.nil_append,
    Cache.filter_violations h.analyzed.distinct]
  intro id entry found v held
  obtain ⟨_, _, _, _, _, current, _⟩ := h.entry found
  rw [current] at held
  exact h.leaves.filed id v held

theorem taken (v : ViolationStore) (id : String) :
    (after.notes.get? id = none ∧ (v.clear.add after.violations).ofNote id = []) ∨
      ∃ entry, after.notes.get? id = some entry ∧
        (v.clear.add after.violations).ofNote id = o.violations.ofNote id := by
  rw [h.ofNote v id]
  cases found : after.notes.get? id with
  | none => exact Or.inl ⟨rfl, rfl⟩
  | some entry =>
    obtain ⟨_, _, _, _, _, current, _⟩ := h.entry found
    exact Or.inr ⟨entry, rfl, current⟩

theorem own_taken (v : ViolationStore) {t : Schema} (mem : t ∈ e.fresh a) {id : String} (ready : id ∉ a.notes) :
    own t.id ((v.clear.add after.violations).ofNote id) = e.ownOf t id := by
  obtain ⟨s, inside, signs, twin⟩ := h.twin mem
  rcases h.taken v id with ⟨missing, empty⟩ | ⟨entry, found, same⟩
  · have gone : e.notes.find? id = none := by
      by_contra there
      obtain ⟨d, there⟩ := Option.ne_none_iff_exists'.1 there
      exact ready ((h.analyzed.notes id).2 ⟨⟨d, there⟩, missing⟩)
    rw [empty, ownOf, gone]
    rfl
  · obtain ⟨d, now, before, _⟩ := h.entry found
    rw [same, ← twin.id, h.leaves.owns s inside signs, ownOf, ownOf, now, before]
    dsimp only
    rw [twin.accepts, twin.found]

theorem dup_taken_mute (v : ViolationStore) {t : Schema} (mem : t ∈ e.fresh a) (mute : Mute t) (id field : String) :
    dup t.id field ((v.clear.add after.violations).ofNote id) = [] := by
  obtain ⟨s, inside, signs, twin⟩ := h.twin mem
  rcases h.taken v id with ⟨_, empty⟩ | ⟨entry, found, same⟩
  · rw [empty]
    rfl
  · rw [same, ← twin.id, h.leaves.dups s inside signs, twin.reportOf_mute mute]

theorem dup_taken (v : ViolationStore) {t : Schema} (mem : t ∈ e.fresh a) (unchanged : a.notes = [])
    (complete : a.removed = []) (id field : String) :
    dup t.id field ((v.clear.add after.violations).ofNote id) = e.reportOf t id field := by
  obtain ⟨s, inside, signs, twin⟩ := h.twin mem
  rcases h.taken v id with ⟨missing, empty⟩ | ⟨entry, found, same⟩
  · rw [empty, reportOf_not_chosen]
    · rfl
    · rintro d picked rfl
      have changed := (h.analyzed.notes d.id).2
        ⟨⟨d, (NoteStore.has_iff h.distinct).2 (mem_chosen.1 picked).1⟩, missing⟩
      rw [unchanged] at changed
      cases changed
  · have chosen := twin.chosen h.leaves.distinct h.distinct (h.same_notes unchanged complete)
    have os : s.observations = t.observations := funext twin.observations
    rw [same, ← twin.id, h.leaves.dups s inside signs, reportOf, reportOf, chosen, os, twin.id]

/-- Of notes that are as they were, schemas that are not stale say themselves what they should. Their
reports are right too, unless notes have changed or gone. -/
theorem exactFor (v : ViolationStore) :
    { e with cache := some after, violations := v.clear.add after.violations }.ExactFor (e.fresh a)
      (· ∉ a.notes) (reportsDue a) := by
  have alike : Alike e { e with cache := some after, violations := v.clear.add after.violations } :=
    ⟨rfl, rfl, rfl⟩
  refine ⟨(ViolationStore.tidy_clear v).add _, ?_, ?_, ?_⟩
  · intro id w mem
    change w ∈ (v.clear.add after.violations).ofNote id at mem
    rw [h.ofNote v id] at mem
    cases found : after.notes.get? id with
    | none => simp [found] at mem
    | some entry => exact h.speaker found (by simpa [found] using mem)
  · intro t mem id ready
    rw [alike.ownOf]
    exact h.own_taken v mem ready
  · intro t mem notDue id field
    rw [alike.reportOf]
    by_cases mute : Mute t
    · rw [Engine.reportOf_mute mute]
      exact h.dup_taken_mute v mem mute id field
    · -- A schema that can report is not due only if the notes are those of before.
      have quiet : a.notes = [] ∧ a.removed = [] := by
        by_contra busy
        refine notDue ⟨?_, (mem_fresh.1 mem).2, mute⟩
        by_cases unchanged : a.notes = []
        · exact Or.inr fun complete => busy ⟨unchanged, complete⟩
        · exact Or.inl unchanged
      exact h.dup_taken v mem quiet.1 quiet.2 id field

theorem keeping (v : ViolationStore) (settings : read.settings = e.options.fingerprint)
    (made : read.made = some read.settings) :
    Keeping (.reused e a)
      { e with cache := some after, violations := v.clear.add after.violations } := by
  have entered : ∀ d ∈ e.notes.notes, ∀ entry, after.notes.get? d.id = some entry → d ∈ o.notes.notes := by
    intro d mem entry found
    obtain ⟨b, now, before, _⟩ := h.entry found
    rw [(NoteStore.has_iff h.distinct).2 mem] at now
    cases now
    exact NoteStore.mem_of_find? before
  have writable : after.Writable := by
    refine ⟨h.analyzed.distinct, h.analyzed.hashes, fun r mem => ?_⟩
    obtain ⟨_, _, _, before, _⟩ := h.entry ((Table.mem_rows h.analyzed.distinct).1 mem)
    exact h.leaves.kept.writable.entry before
  refine ⟨(ViolationStore.tidy_clear v).add _, (ViolationStore.filed_clear v).add _, after, rfl, writable,
    ?_, ?_, ?_, ?_, ?_, ?_⟩
  · intro id entry found _
    obtain ⟨d, now, _, _, dated, _⟩ := h.entry found
    exact ⟨d, now, Binary64.equal_symm dated⟩
  · intro id entry found _ _
    dsimp only
    rw [h.ofNote v id, found]
    rfl
  · intro d mem there
    by_contra missing
    refine there ((h.analyzed.notes d.id).2 ⟨⟨d, (NoteStore.has_iff h.distinct).2 mem⟩, ?_⟩)
    cases found : after.notes.get? d.id with
    | none => rfl
    | some entry => exact (missing ⟨entry, found⟩).elim
  · rintro d mem schema ⟨there, t, fresh, accepts, rfl⟩
    cases found : after.notes.get? d.id with
    | none =>
      exact (there ((h.analyzed.notes d.id).2
        ⟨⟨d, (NoteStore.has_iff h.distinct).2 mem⟩, found⟩)).elim
    | some entry =>
      obtain ⟨s, inside, signs, twin⟩ := h.twin fresh
      have before := entered d mem entry found
      obtain ⟨other, same, listed⟩ := h.leaves.kept.lists d before s.id
        (h.leaves.lists s inside signs d before (by rw [twin.accepts, accepts]))
      obtain ⟨_, _, _, kept, _⟩ := h.entry found
      rw [kept] at same
      cases same
      exact ⟨entry, rfl, twin.id ▸ listed⟩
  · intro d mem entry found _ schema listed
    obtain ⟨t, fresh, named, accepts⟩ := h.listed (entered d mem entry found) found listed
    exact ⟨t, (mem_fresh.1 fresh).1, accepts, named⟩
  · refine ⟨h.analyzed.settings.trans settings, ?_, h.analyzed.dirty, h.analyzed.hashes, ?_, ?_⟩
    · rw [h.analyzed.made, h.analyzed.settings, made]
    · intro schema digest found
      obtain ⟨s, mem, id, prints⟩ := (h.analyzed.printed schema digest).1 found
      exact ⟨s, mem, id, trivial, prints⟩
    · intro s mem _
      obtain ⟨digest, prints⟩ := h.analyzed.all s mem
      exact ⟨digest, (h.analyzed.printed s.id digest).2 ⟨s, mem, rfl, prints⟩⟩

end Reuses

end VaultSchema.Engine
