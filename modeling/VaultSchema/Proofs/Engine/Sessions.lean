import VaultSchema.Proofs.Engine.Listing
import VaultSchema.Proofs.Engine.Startup

/-! Sessions one after the other, over the same blobs. Each has a new engine, which starts, deals
with the changes of notes, and ends; between two of them notes, schemas and settings may become
others. -/

set_option autoImplicit false

namespace VaultSchema

/-- What a session is about: what its engine is made of, and how the notes change meanwhile. -/
structure Session where
  options : EngineOptions := {}
  notes : NoteStore
  schemaSet : SchemaSet
  given : ViolationStore := {}
  changes : List Change := []

namespace Session

open Engine

def engine (s : Session) (b : BlobStore) : Engine :=
  Engine.create s.options s.notes b s.schemaSet true s.given

def rest (s : Session) : Engine.Run Unit := do
  each Change.step s.changes
  shutdown

def last (s : Session) : NoteStore := s.changes.foldl (fun n c => c.notes n) s.notes

/-- Right after the start an engine holds of every note, perhaps in another order, what a full validation
of an engine with the same notes, schemas and options finds from the start. -/
def Starts (s : Session) (b : BlobStore) (begun : Engine) : Prop :=
  ∀ f : Engine, Alike (s.engine b) f → f.Startable → (started f).Sound →
    Gives (validateAll none) f fun finished full => finished = true ∧
      ∀ id, (begun.violations.ofNote id).Perm (full.violations.ofNote id)

def AllStart (b : BlobStore) : List Session → Prop
  | [] => True
  | s :: later => Gives (startup none) (s.engine b) fun _ begun =>
      s.Starts b begun ∧ Gives s.rest begun fun _ after => AllStart after.blobs later

/-- Nothing faults in a session, and only notes change. -/
structure Untroubled (s : Session) (b : BlobStore) : Prop where
  sound : (started (s.engine b)).Sound
  printed : ∀ t ∈ s.schemaSet.schemas, ∃ digest, t.fingerprint s.schemaSet.registry = .ok digest
  notes : ∀ c ∈ s.changes, c.OfNote
  steps : Change.Untroubled (started (s.engine b)) s.changes

def AllUntroubled (b : BlobStore) : List Session → Prop
  | [] => True
  | s :: later => s.Untroubled b ∧ Leads (do
      startup none
      s.rest) (s.engine b) fun _ after => AllUntroubled after.blobs later

/-- A note that is edited between two sessions gets another time of change. -/
def Dates (s t : Session) : Prop :=
  ∀ d ∈ s.last.notes, ∀ b ∈ t.notes.notes, d.id = b.id → b.mtime.equal d.mtime = true → b = d

/-- The same fingerprint is that of the same payload. -/
structure Distinguished (sessions : List Session) : Prop where
  schemas : ∀ s ∈ sessions, ∀ t ∈ sessions, ∀ x ∈ s.schemaSet.schemas, ∀ y ∈ t.schemaSet.schemas, ∀ digest,
    x.fingerprint s.schemaSet.registry = .ok digest → y.fingerprint t.schemaSet.registry = .ok digest →
      Payload.schema x s.schemaSet.registry = Payload.schema y t.schemaSet.registry
  settings : ∀ s ∈ sessions, ∀ t ∈ sessions, s.options.fingerprint = t.options.fingerprint →
    Payload.settings s.options.checkUnknown s.options.allowNative =
      Payload.settings t.options.checkUnknown t.options.allowNative

end Session

namespace Engine

variable {e o : Engine}

/-- Schemas with the same payload say the same under the same settings. -/
theorem twin_of_payload {s t : Schema} (unknown : o.options.checkUnknown = e.options.checkUnknown)
    (native : o.options.allowNative = e.options.allowNative)
    (same : Payload.schema s o.schemaSet.registry = Payload.schema t e.schemaSet.registry) :
    Twin o e s t := by
  have found : ∀ d, o.check d s = e.check d t := by
    intro d
    unfold check
    rw [validate_of_payload same, unknown, native]
  have accepts : ∀ d, s.accepts d = t.accepts d := by
    intro d
    unfold Schema.accepts
    rw [applies_of_payload same]
  obtain ⟨⟨name, rfl⟩, _⟩ := Payload.schema_eq same
  refine ⟨rfl, accepts, fun d => ?_, fun _ => rfl⟩
  unfold Engine.found
  rw [found]

theorem current_settles {cs : List Change} (current : e.index.index.Current e.notes)
    (notes : ∀ c ∈ cs, c.OfNote) (untroubled : Change.Untroubled e cs) :
    (cs.foldl (fun e c => c.settle e) e).index.index.Current (cs.foldl (fun e c => c.settle e) e).notes := by
  induction cs generalizing e with
  | nil => exact current
  | cons c rest ih =>
    obtain ⟨allowed, _, later⟩ := untroubled
    refine ih ?_ (fun c mem => notes c (by simp [mem])) later
    cases c with
    | changed d => exact current.put d
    | renamed old d => exact current.rename old allowed
    | deleted id => exact current.without id
    | revalidated schema | rescanned s => exact False.elim (notes _ List.mem_cons_self)

theorem settles_eq (cs : List Change) : ∃ x, cs.foldl (fun e c => c.settle e) e =
    { e with notes := cs.foldl (fun n c => c.notes n) e.notes, index := x } := by
  induction cs generalizing e with
  | nil => exact ⟨e.index, rfl⟩
  | cons c rest ih => exact ih (e := c.settle e)

end Engine

theorem Change.Untroubled.last {e : Engine} {cs : List Change} (h : Change.Untroubled e cs) (sound : e.Sound) :
    (cs.foldl (fun e c => c.settle e) e).Sound := by
  induction cs generalizing e with
  | nil => exact sound
  | cons c rest ih => exact ih h.2.2 h.2.1

namespace Session

open Engine

variable {s t : Session} {b : BlobStore}

/-- What is left in the blobs of a session: its engine was settled and wrote its cache. -/
structure Left (s : Session) (b : BlobStore) (o : Engine) (left : Cache) : Prop where
  settled : o.Settled
  sound : o.Sound
  cached : o.cache = some left
  options : o.options = s.options
  notes : o.notes = s.last
  schemaSet : o.schemaSet = s.schemaSet
  text : ∃ text, left.toText = .ok text ∧ b.read Cache.blobName = .found text

theorem started_indexed (untroubled : s.Untroubled b) (shareable : b.Shareable) :
    (s.engine b).Startable ∧ Indexed (s.engine b) (started (s.engine b)) := by
  refine Engine.started_indexed (fun ready => Bool.noConfusion ready) ?_ shareable.readable
  have distinct := untroubled.sound.notes
  rwa [(alike_started _).notes] at distinct

theorem start_anew (untroubled : s.Untroubled b) (shareable : b.Shareable)
    (blank : ∀ c : Cache, c.load b = .ok (c, false)) : Gives (startup none) (s.engine b) fun _ begun =>
      Keeps (started (s.engine b)) begun ∧ begun.Settled := by
  obtain ⟨startable, indexed⟩ := started_indexed untroubled shareable
  rw [gives_startup startable, opened_of_new rfl]
  have loads : Cache.load { settings := s.options.fingerprint } (started (s.engine b)).blobs =
      .ok ({ settings := s.options.fingerprint }, false) := by
    rw [Cache.load, indexed.beside.read (by decide)]
    exact blank _
  refine restore_anew indexed.cache loads (by simp) ?_ indexed.ready untroubled.sound
  rw [indexed.alike.options]
  rfl

theorem start_inheriting {k : Coverage} {o : Engine} {left : Cache} (untroubled : t.Untroubled b)
    (shareable : b.Shareable) (inherits : Inherits k o (started (t.engine b)) left) :
    Gives (startup none) (t.engine b) fun _ begun =>
      Keeps (started (t.engine b)) begun ∧ begun.Settled := by
  obtain ⟨startable, indexed⟩ := started_indexed untroubled shareable
  rw [gives_startup startable, opened_of_new rfl]
  refine inherits.restore_gives indexed.cache ?_ indexed.ready untroubled.sound ?_
  · rw [indexed.alike.options]
    rfl
  · rw [indexed.alike.schemaSet]
    exact untroubled.printed

theorem Left.inherits {o : Engine} {left : Cache} (h : s.Left b o left) (untroubled : t.Untroubled b)
    (shareable : b.Shareable) (dates : s.Dates t) {sessions : List Session} (known : s ∈ sessions)
    (coming : t ∈ sessions) (distinguished : Distinguished sessions) :
    Inherits (.full o.schemaSet) o (started (t.engine b)) left := by
  obtain ⟨_, indexed⟩ := started_indexed untroubled shareable
  have alike := indexed.alike
  have leaves := h.settled.leaves h.sound h.cached (started (t.engine b))
  refine ⟨leaves, leaves.kept.writable, ?_, fun same => ⟨?_, ?_⟩⟩
  · rw [indexed.beside.read (by decide)]
    exact h.text
  · rw [h.notes, alike.notes]
    exact dates
  · rw [leaves.kept.signed.settings, h.options, alike.options] at same
    obtain ⟨unknown, native⟩ := Payload.settings_eq (distinguished.settings s known t coming same)
    rw [h.schemaSet, alike.schemaSet]
    intro x mem y inside _ digest before now
    have payload := distinguished.schemas s known t coming x mem y inside digest before now
    refine twin_of_payload ?_ ?_ (by rw [h.schemaSet, alike.schemaSet]; exact payload)
    · rw [h.options, alike.options]
      exact unknown
    · rw [h.options, alike.options]
      exact native

theorem rest_gives {begun : Engine} (untroubled : s.Untroubled b) (shareable : b.Shareable)
    (keeps : Keeps (started (s.engine b)) begun) (settled : begun.Settled) :
    Gives s.rest begun fun _ after => after.blobs.Shareable ∧ ∃ o left, s.Left after.blobs o left := by
  obtain ⟨_, indexed⟩ := started_indexed untroubled shareable
  have alike := indexed.alike
  unfold rest
  rw [gives_bind]
  refine (steps_settle settled (untroubled.sound.keeps keeps) untroubled.notes
    (untroubled.steps.keeps keeps)).mono ?_
  rintro _ last ⟨more, now⟩
  have more := (keeps.settles s.changes).trans more
  have sound := (untroubled.steps.last untroubled.sound).keeps more
  have current := current_settles (by rw [alike.notes]; exact indexed.current) untroubled.notes untroubled.steps
  obtain ⟨x, same⟩ := settles_eq (e := started (s.engine b)) s.changes
  rw [same] at more current
  rw [← more.index, ← more.notes] at current
  have options : last.options = s.options := more.options.trans alike.options
  have schemaSet : last.schemaSet = s.schemaSet := more.schemaSet.trans alike.schemaSet
  have notes : last.notes = s.last := by
    rw [more.notes, alike.notes]
    rfl
  have shareable : last.blobs.Shareable := by
    rw [more.blobs]
    exact shareable.beside indexed.beside
  obtain ⟨left, cached, kept⟩ := now.keeping.kept
  have unsaved : ∀ c, last.cache = some c → c.writer.dirty = true ∧ c.Writable := by
    rw [cached]
    rintro c ⟨⟩
    exact ⟨kept.signed.dirty, kept.writable⟩
  refine (shutdown_gives current shareable unsaved).mono ?_
  rintro _ after ⟨shared, text⟩
  exact ⟨shared, last, left, now, sound, cached, options, notes, schemaSet, text left cached⟩

theorem starts_of_settled {begun : Engine} (keeps : Keeps (started (s.engine b)) begun)
    (settled : begun.Settled) : s.Starts b begun := by
  intro f alike startable sound
  refine (validateAll_gives startable sound).mono ?_
  rintro finished full ⟨ended, more, exact⟩
  refine ⟨ended, settled.exact.perm exact ?_⟩
  have before := alike_started (s.engine b)
  have after := alike_started f
  exact ⟨more.options.trans (after.options.trans (alike.options.trans (before.options.symm.trans keeps.options.symm))),
    more.notes.trans (after.notes.trans (alike.notes.trans (before.notes.symm.trans keeps.notes.symm))),
    more.schemaSet.trans (after.schemaSet.trans (alike.schemaSet.trans
      (before.schemaSet.symm.trans keeps.schemaSet.symm)))⟩

theorem allStart_of_first {all sessions : List Session} (distinguished : Distinguished all)
    (known : ∀ s ∈ sessions, s ∈ all) (dates : sessions.IsChain Dates) (untroubled : AllUntroubled b sessions)
    (shareable : b.Shareable)
    (first : ∀ s ∈ sessions.head?, s.Untroubled b → Gives (startup none) (s.engine b) fun _ begun =>
      Keeps (started (s.engine b)) begun ∧ begun.Settled) : AllStart b sessions := by
  -- Only the first session starts from blobs of any kind; each later one inherits from the one before.
  induction sessions generalizing b with
  | nil => trivial
  | cons s later ih =>
    obtain ⟨now, after⟩ := untroubled
    rw [leads_bind] at after
    refine ((first s rfl now).and after).mono ?_
    rintro _ begun ⟨⟨keeps, settled⟩, after⟩
    refine ⟨starts_of_settled keeps settled, ((rest_gives now shareable keeps settled).and after).mono ?_⟩
    rintro _ last ⟨⟨shared, o, left, h⟩, after⟩
    refine ih (fun t mem => known t (by simp [mem])) dates.tail after shared ?_
    intro t next troubled
    have between : s.Dates t := by
      cases later with
      | nil => cases next
      | cons t later =>
        cases next
        exact (List.isChain_cons_cons.1 dates).1
    have coming : t ∈ all := known t (by simp [List.mem_of_mem_head? next])
    exact start_inheriting troubled shared
      (h.inherits troubled shared between (known s (by simp)) coming distinguished)

/-- A start that reuses a cache is as good as a full validation: in a series of sessions over blobs that
hold no results at first, right after every start the engine holds of each note what a full validation
finds, whatever the notes, the schemas and the settings have become since the session before. -/
theorem starts_eq_validateAll (sessions : List Session) (b : BlobStore) (shareable : b.Shareable)
    (blank : ∀ c : Cache, c.load b = .ok (c, false)) (untroubled : AllUntroubled b sessions)
    (dates : sessions.IsChain Dates) (distinguished : Distinguished sessions) : AllStart b sessions :=
  allStart_of_first distinguished (fun _ mem => mem) dates untroubled shareable
    fun _ _ untroubled => start_anew untroubled shareable blank

def stocktaking (ds : List Document) (changes : List Change) : Session where
  notes := ⟨ds⟩
  schemaSet := ⟨["books"].map register, {}⟩
  changes := changes

/-- A book gets the number of another one, and while nobody looks this one goes and a third one comes. -/
def stocktakings : List Session :=
  [stocktaking [unnumbered "Dune.md", copy "Emma.md" "1"] [.changed (copy "Dune.md" "1")],
    stocktaking [copy "Dune.md" "1", copy "Persuasion.md" "1"] [.deleted "Dune.md"]]

theorem started_stocktaking (ds : List Document) (changes : List Change) (b : BlobStore) :
    ∃ c x, started ((stocktaking ds changes).engine b) = registered {} c x ["books"] ds :=
  ⟨_, _, rfl⟩

theorem stocktaking_untroubled (ds after : List Document) (c : Change) (note : c.OfNote)
    (allowed : ∀ b x, c.Allowed (registered {} b x ["books"] ds)) (notes : c.notes ⟨ds⟩ = ⟨after⟩)
    (distinct : (ds.map (·.id)).Nodup) (distinct' : (after.map (·.id)).Nodup)
    (numbered : ∀ d ∈ ds, d = copy d.id "1" ∨ d = unnumbered d.id)
    (numbered' : ∀ d ∈ after, d = copy d.id "1" ∨ d = unnumbered d.id)
    (observed : UniqueValues.scan (register "books") {} (⟨ds⟩ : NoteStore).listed = .ok ())
    (observed' : UniqueValues.scan (register "books") {} (⟨after⟩ : NoteStore).listed = .ok ())
    (b : BlobStore) : (stocktaking ds [c]).Untroubled b := by
  obtain ⟨blobs, x, begun⟩ := started_stocktaking ds [c] b
  refine ⟨?_, ?_, by simpa [stocktaking] using note, ?_⟩
  · rw [begun]
    refine registered_sound _ _ _ (by decide) distinct ?_ (by simpa using observed)
    intro id _ d mem
    rcases numbered d mem with same | same
    · rw [same]
      exact valid_numbered id d.id
    · rw [same]
      exact ⟨_, valid_unnumbered id d.id⟩
  · intro t mem
    obtain rfl : t = register "books" := by simpa [stocktaking] using mem
    exact exists_fingerprint_register "books"
  · rw [begun]
    exact untroubled_registered after (allowed blobs x) notes (by decide) distinct' numbered'
      (by simpa using observed') trivial

theorem stocktakings_untroubled : AllUntroubled {} stocktakings := by
  refine ⟨?_, fun _ after _ => ⟨?_, fun _ _ _ => trivial⟩⟩
  · exact stocktaking_untroubled [unnumbered "Dune.md", copy "Emma.md" "1"]
      [copy "Dune.md" "1", copy "Emma.md" "1"] (.changed (copy "Dune.md" "1")) trivial (fun _ _ => trivial) (by cbv)
      (by decide) (by decide) (by simp [copy, unnumbered]) (by simp [copy]) (by cbv) (by cbv) {}
  · exact stocktaking_untroubled [copy "Dune.md" "1", copy "Persuasion.md" "1"] [copy "Persuasion.md" "1"]
      (.deleted "Dune.md") trivial (fun _ _ => trivial) (by cbv)
      (by decide) (by decide) (by simp [copy]) (by simp [copy]) (by cbv) (by cbv) after.blobs

/-- The stocktakings, the second of which reuses what the first one left. -/
theorem stocktakings_start :
    ({} : BlobStore).Shareable ∧ (∀ c : Cache, c.load {} = .ok (c, false)) ∧ AllUntroubled {} stocktakings ∧
      stocktakings.IsChain Dates ∧ Distinguished stocktakings ∧ AllStart {} stocktakings := by
  have shareable : ({} : BlobStore).Shareable := ⟨rfl, by decide, by decide⟩
  have blank : ∀ c : Cache, c.load {} = .ok (c, false) := fun c => Cache.load_of_unread (Or.inl (by decide))
  have dates : stocktakings.IsChain Dates := by
    refine List.isChain_cons_cons.2 ⟨?_, List.isChain_singleton _⟩
    have last : (stocktaking [unnumbered "Dune.md", copy "Emma.md" "1"] [.changed (copy "Dune.md" "1")]).last =
        ⟨[copy "Dune.md" "1", copy "Emma.md" "1"]⟩ := by cbv
    unfold Dates
    rw [last]
    simp [stocktaking, copy]
  have distinguished : Distinguished stocktakings := by
    have same : ∀ s ∈ stocktakings, s.options = {} ∧ s.schemaSet = ⟨["books"].map register, {}⟩ := by
      simp [stocktakings, stocktaking]
    refine ⟨?_, ?_⟩
    · intro s hs t ht x hx y hy _ _ _
      rw [(same s hs).2] at hx ⊢
      rw [(same t ht).2] at hy ⊢
      simp only [List.map_cons, List.map_nil, List.mem_singleton] at hx hy
      rw [hx, hy]
    · intro s hs t ht _
      rw [(same s hs).1, (same t ht).1]
  exact ⟨shareable, blank, stocktakings_untroubled, dates, distinguished,
    starts_eq_validateAll stocktakings {} shareable blank stocktakings_untroubled dates distinguished⟩

end Session
end VaultSchema
