import VaultSchema.Proofs.Engine.Cancellation

/-! Starts after work that was cancelled. If the work validated everything, the next start makes up
for what it did not come to: it finds the schemas without a fingerprint, and the notes without an
entry. -/

set_option autoImplicit false

namespace VaultSchema.Engine

variable {e o : Engine} {cancel : Cancellation} {work : Run Unit}

/-- Work that validates everything: because this is asked for, or at a start that finds no results, or
those of other settings. -/
inductive Thorough (e : Engine) (cancel : Cancellation) : Run Unit → Prop
  | asked : Thorough e cancel (discard (validateAll cancel))
  | starting (anew : ∀ c, e.cache = some c → ∃ loaded read, c.load e.blobs = .ok (loaded, read) ∧
      loaded.made ≠ some loaded.settings) : Thorough e cancel (startup cancel)

/-- The engine of the next session, with the notes, the schemas and the options of this one. -/
def reopened (e : Engine) (b : BlobStore) (given : ViolationStore) : Engine :=
  Engine.create e.options e.notes b e.schemaSet e.cache.isSome given

/-- An engine holds of every note, perhaps in another order, what a full validation finds. -/
def Validated (e : Engine) : Prop :=
  Gives (validateAll none) e fun finished full =>
    finished = true ∧ ∀ id, (e.violations.ofNote id).Perm (full.violations.ofNote id)

structure Fit (e : Engine) : Prop where
  sound : (started e).Sound
  current : e.index.ready = true → e.index.index.Current e.notes
  shareable : e.blobs.Shareable
  settings : ∀ c, e.cache = some c → c.settings = e.options.fingerprint
  printed : ∀ s ∈ e.schemaSet.schemas, ∃ digest, s.fingerprint e.schemaSet.registry = .ok digest

theorem Fit.distinct (fit : e.Fit) : e.notes.Distinct := by
  have distinct := fit.sound.notes
  rwa [(alike_started e).notes] at distinct

theorem Fit.started_indexed (fit : e.Fit) : e.Startable ∧ Indexed e (started e) :=
  Engine.started_indexed fit.current fit.distinct fit.shareable.readable

theorem Fit.opened_indexed (fit : e.Fit) : Indexed e (opened e) :=
  Engine.opened_indexed fit.current fit.distinct fit.shareable.readable

theorem Alike.trans {a b c : Engine} (h : Alike a b) (g : Alike b c) : Alike a c :=
  ⟨g.options.trans h.options, g.notes.trans h.notes, g.schemaSet.trans h.schemaSet⟩

theorem Alike.symm {a b : Engine} (h : Alike a b) : Alike b a := ⟨h.options.symm, h.notes.symm, h.schemaSet.symm⟩

theorem Indexed.between {p : Engine} (ho : Indexed e o) (hp : Indexed e p) : Alike o p := ho.alike.symm.trans hp.alike

theorem Indexed.sound {p : Engine} (ho : Indexed e o) (hp : Indexed e p) (sound : o.Sound) : p.Sound := by
  refine sound.reindexed (ho.between hp) ?_ ?_ (by rw [ho.cache, hp.cache]; exact id)
  · rw [ho.alike.notes]
    exact ho.current
  · rw [ho.alike.notes]
    exact hp.current

theorem Exact.validated (exact : e.Exact) (ready : e.index.ready = true) (sound : e.Sound) : e.Validated := by
  rw [← started_of_ready ready] at sound
  refine (validateAll_gives (Or.inl ready) sound).mono ?_
  rintro finished full ⟨ended, keeps, found⟩
  rw [started_of_ready ready] at keeps
  exact ⟨ended, exact.perm found keeps.alike⟩

theorem fullPass_stops (alike : Alike e o) (same : o.violations = e.violations) (sound : o.Sound)
    (settings : ∀ c, o.cache = some c → c.settings = o.options.fingerprint) (cancel : Cancellation) :
    Gives (fullPass cancel) o fun _ stopped =>
      stopped.violations.marked = (e.completes cancel e.schemaSet.schemas || e.violations.marked) ∧
        Keeps o stopped ∧ (o.cache.isSome → stopped.Resumable) := by
  have resumable : Leads (fullPass cancel) o fun _ stopped => o.cache.isSome → stopped.Resumable := by
    cases cached : o.cache with
    | none => exact fun _ _ _ some => Bool.noConfusion some
    | some c => exact (fullPass_resumable sound cached (settings c cached) cancel).mono fun _ _ h _ => h
  refine (((fullPass_ends sound cancel).and (fullPass_marks cancel o)).and resumable).mono ?_
  rintro finished stopped ⟨⟨⟨ended, keeps⟩, marked⟩, resumable⟩
  rw [ended, alike.completes, alike.schemaSet, same] at marked
  exact ⟨marked, keeps, resumable⟩

theorem Thorough.gives (thorough : Thorough e cancel work) (fit : e.Fit) : Gives work e fun _ stopped =>
    stopped.violations.marked = (e.completes cancel e.schemaSet.schemas || e.violations.marked) ∧
      ∃ o, Indexed e o ∧ o.Sound ∧ Keeps o stopped ∧ (e.cache.isSome → stopped.Resumable) := by
  obtain ⟨startable, begun⟩ := fit.started_indexed
  cases thorough with
  | asked =>
    rw [gives_discard, gives_validateAll startable]
    have settings : ∀ c, (started e).cache = some c → c.settings = (started e).options.fingerprint := by
      rw [begun.cache, begun.alike.options]
      exact fit.settings
    refine (fullPass_stops begun.alike begun.violations fit.sound settings cancel).mono ?_
    rintro _ stopped ⟨marked, keeps, resumable⟩
    rw [begun.cache] at resumable
    exact ⟨marked, _, begun, fit.sound, keeps, resumable⟩
  | starting anew =>
    have indexed := fit.opened_indexed
    have sound := begun.sound indexed fit.sound
    -- Either way a full pass follows, on an engine that differs from the opened one in its cache alone.
    have follows : ∀ cache : Option Cache, cache.isSome = e.cache.isSome →
        (∀ c, cache = some c → c.settings = e.options.fingerprint) →
        Gives (discard (validateAll cancel)) { opened e with cache := cache } fun _ stopped =>
          stopped.violations.marked = (e.completes cancel e.schemaSet.schemas || e.violations.marked) ∧
            ∃ o, Indexed e o ∧ o.Sound ∧ Keeps o stopped ∧ (cache.isSome → stopped.Resumable) := by
      intro cache some settings
      have keeps : Keeps (opened e) { opened e with cache := cache } :=
        ⟨rfl, rfl, rfl, rfl, rfl, by rw [indexed.cache]; exact some⟩
      have ready : ({ opened e with cache := cache } : Engine).index.ready = true := indexed.ready
      rw [gives_discard, gives_validateAll (Or.inl ready), started_of_ready ready]
      refine (fullPass_stops (indexed.alike.trans keeps.alike) indexed.violations (sound.keeps keeps)
        (fun c cached => by rw [keeps.options, indexed.alike.options]; exact settings c cached) cancel).mono ?_
      rintro _ stopped ⟨marked, more, resumable⟩
      exact ⟨marked, _, indexed, sound, keeps.trans more, resumable⟩
    rw [gives_startup startable]
    cases cached : e.cache with
    | none =>
      have same : ({ opened e with cache := none } : Engine) = opened e := by
        rw [← cached, ← indexed.cache]
      have gives := follows none (by rw [cached]) (by simp)
      rw [same] at gives
      exact gives
    | some c =>
      obtain ⟨loaded, read, loads, other⟩ := anew c cached
      rw [restore, gives_bind, gives_openCache]
      have found : c.load (opened e).blobs = .ok (loaded, read) := by
        rw [Cache.load, indexed.beside.read (by decide)]
        exact loads
      refine ⟨loaded, read, found, _, _, Cache.analyze_full other _ _, ?_⟩
      rw [if_pos rfl]
      refine follows (some loaded.clear) (by rw [cached]; rfl) ?_
      rintro d ⟨⟩
      exact (Cache.load_settings loads).trans (fit.settings c cached)

theorem Alike.succeeds (alike : Alike o e) (sound : o.Sound) : Succeeds o e := by
  refine ⟨fun d mem b inside same _ => ?_, fun s mem t inside same _ _ _ => ?_⟩
  · rw [alike.notes] at inside
    exact NoteStore.eq_of_id_eq sound.notes inside mem same.symm
  · rw [alike.schemaSet] at inside
    obtain rfl := sound.eq_of_id mem inside same
    exact ⟨rfl, fun _ => rfl, fun d => (alike.found d s).symm, fun _ => rfl⟩

theorem reopened_gives {stopped : Engine} {b : BlobStore} (fit : e.Fit) (indexed : Indexed e o) (sound : o.Sound)
    (keeps : Keeps o stopped) (resumable : e.cache.isSome → stopped.Resumable) (shareable : b.Shareable)
    (text : ∀ c, stopped.cache = some c → ∃ text, c.toText = .ok text ∧ b.read Cache.blobName = .found text)
    (given : ViolationStore) : Gives (startup none) (e.reopened b given) fun _ begun =>
      Alike e begun ∧ begun.Validated := by
  have alike : Alike e (e.reopened b given) := ⟨rfl, rfl, rfl⟩
  obtain ⟨startable, next⟩ := Engine.started_indexed (e := e.reopened b given) (fun ready => Bool.noConfusion ready)
    fit.distinct shareable.readable
  have all := indexed.alike.symm.trans (alike.trans next.alike)
  have somewhere : (e.reopened b given).cache.isSome = e.cache.isSome := by
    cases cached : e.cache <;> simp [reopened, create, cached]
  have sound' : (started (e.reopened b given)).Sound := by
    refine sound.reindexed all ?_ ?_ (by rw [next.cache, somewhere, indexed.cache]; exact id)
    · rw [indexed.alike.notes]
      exact indexed.current
    · rw [indexed.alike.notes]
      exact next.current
  have settled : ∀ begun, Keeps (started (e.reopened b given)) begun → begun.Exact →
      Alike e begun ∧ begun.Validated := fun begun more exact =>
    ⟨alike.trans (next.alike.trans more.alike), exact.validated (by rw [more.index]; exact next.ready)
      (sound'.keeps more)⟩
  rw [gives_startup startable, opened_of_new rfl]
  cases cached : e.cache with
  | none =>
    have none : (e.reopened b given).cache = none := by simp [reopened, create, cached]
    rw [none, restore, gives_discard]
    rw [← started_of_ready next.ready] at sound'
    refine (validateAll_gives (Or.inl next.ready) sound').mono ?_
    rintro _ begun ⟨_, more, exact⟩
    rw [started_of_ready next.ready] at more
    exact settled begun more exact
  | some c =>
    have some : (e.reopened b given).cache = some { settings := e.options.fingerprint } := by
      simp [reopened, create, cached]
    obtain ⟨k, left, held, leaves⟩ := resumable (by rw [cached]; rfl)
    have leaves := leaves _ (keeps.alike.symm.trans all)
    have inherits : Inherits k stopped (started (e.reopened b given)) left := by
      refine ⟨leaves, leaves.kept.writable, ?_, fun _ =>
        (keeps.alike.symm.trans all).succeeds (sound.keeps keeps)⟩
      rw [next.beside.read (by decide)]
      exact text left held
    rw [some]
    refine (inherits.restore_gives (by rw [next.cache]; exact some) ?_ next.ready sound' ?_).mono ?_
    · rw [next.alike.options]
      rfl
    · rw [next.alike.schemaSet]
      exact fit.printed
    · rintro _ begun ⟨more, settled'⟩
      exact settled begun more settled'.exact

/-- Thorough work may be cancelled anywhere: it marks the violations only if every schema's pass came to
its end, and the start of the next session, with the same notes, schemas and options, makes up for the
rest. -/
theorem cancelled_recovers (e : Engine) (cancel : Cancellation) (work : Run Unit)
    (thorough : Thorough e cancel work) (fit : e.Fit) : Gives work e fun _ stopped =>
      stopped.violations.marked = (e.completes cancel e.schemaSet.schemas || e.violations.marked) ∧
        Gives shutdown stopped fun _ after => ∀ given, Gives (startup none) (e.reopened after.blobs given)
          fun _ begun => Alike e begun ∧ begun.Validated := by
  refine (thorough.gives fit).mono ?_
  rintro _ stopped ⟨marked, o, indexed, sound, keeps, resumable⟩
  refine ⟨marked, ?_⟩
  have current : stopped.index.index.Current stopped.notes := by
    rw [keeps.index, keeps.notes, indexed.alike.notes]
    exact indexed.current
  have shareable : stopped.blobs.Shareable := by
    rw [keeps.blobs]
    exact fit.shareable.beside indexed.beside
  have unsaved : ∀ c, stopped.cache = some c → c.writer.dirty = true ∧ c.Writable := by
    intro c cached
    have some : e.cache.isSome := by
      rw [← indexed.cache, ← keeps.cached, cached]
      rfl
    obtain ⟨k, left, held, leaves⟩ := resumable some
    obtain rfl : left = c := Option.some.inj (held.symm.trans cached)
    have leaves := leaves stopped ⟨rfl, rfl, rfl⟩
    exact ⟨leaves.kept.signed.dirty, leaves.kept.writable⟩
  refine (shutdown_gives current shareable unsaved).mono ?_
  rintro _ after ⟨shared, text⟩ given
  exact reopened_gives fit indexed sound keeps resumable shared text given

/-- Books without numbers in some registers, with a batch for every note. -/
def ledger (ids : List String) (b : BlobStore) : Engine :=
  Engine.create { batchSize := 1 } ⟨[unnumbered "Dune.md", unnumbered "Emma.md"]⟩ b ⟨ids.map register, {}⟩ true {}

theorem started_ledger (ids : List String) (b : BlobStore) : ∃ c x, started (ledger ids b) =
    registered { batchSize := 1 } c x ids [unnumbered "Dune.md", unnumbered "Emma.md"] := ⟨_, _, rfl⟩

theorem ledger_fit {ids : List String} (schemas : ids.Nodup) {b : BlobStore} (shareable : b.Shareable) :
    (ledger ids b).Fit := by
  obtain ⟨blobs, x, begun⟩ := started_ledger ids b
  refine ⟨?_, fun ready => Bool.noConfusion ready, shareable, ?_, ?_⟩
  · rw [begun]
    refine registered_sound _ _ _ schemas (by decide) ?_ ?_
    · intro id _ d mem
      simp only [List.mem_cons, List.not_mem_nil, or_false] at mem
      obtain rfl | rfl := mem
      · exact ⟨_, valid_unnumbered id "Dune.md"⟩
      · exact ⟨_, valid_unnumbered id "Emma.md"⟩
    · intro id _
      cbv
  · rintro c ⟨⟩
    rfl
  · intro s mem
    obtain ⟨id, _, rfl⟩ := List.mem_map.1 mem
    exact exists_fingerprint_register id

theorem ledger_chosen (ids : List String) (b : BlobStore) (id : String) :
    (ledger ids b).chosen (register id) = [unnumbered "Dune.md", unnumbered "Emma.md"] := by
  have all : (ledger ids b).chosen (register id) =
      (⟨[unnumbered "Dune.md", unnumbered "Emma.md"]⟩ : NoteStore).listed := by
    simp [chosen, ledger, create, register_accepts]
  rw [all]
  cbv

theorem ledger_reached (ids : List String) (b : BlobStore) (id : String) :
    (ledger ids b).reached (register id) (some 0) = ([unnumbered "Dune.md"], false, some 0) := by
  rw [reached, ledger_chosen]
  simp [reach, atBoundary, ledger, create, Cancellation.boundary]

/-- The first start of a ledger with two registers is cancelled after one book, and the next one recovers. -/
theorem ledger_recovers :
    Thorough (ledger ["books", "loans"] {}) (some 0) (startup (some 0)) ∧ (ledger ["books", "loans"] {}).Fit ∧
      (ledger ["books", "loans"] {}).completes (some 0) (ledger ["books", "loans"] {}).schemaSet.schemas = false ∧
      Gives (startup (some 0)) (ledger ["books", "loans"] {}) fun _ stopped =>
        stopped.violations.marked = ((ledger ["books", "loans"] {}).completes (some 0)
          (ledger ["books", "loans"] {}).schemaSet.schemas || (ledger ["books", "loans"] {}).violations.marked) ∧
        Gives shutdown stopped fun _ after => ∀ given,
          Gives (startup none) ((ledger ["books", "loans"] {}).reopened after.blobs given) fun _ begun =>
            Alike (ledger ["books", "loans"] {}) begun ∧ begun.Validated := by
  have thorough : Thorough (ledger ["books", "loans"] {}) (some 0) (startup (some 0)) := by
    refine .starting ?_
    rintro c ⟨⟩
    exact ⟨_, false, Cache.load_of_unread (Or.inl (by decide)), by simp⟩
  have fit : (ledger ["books", "loans"] {}).Fit := ledger_fit (by decide) ⟨rfl, by decide, by decide⟩
  have cut : (ledger ["books", "loans"] {}).completes (some 0) (["books", "loans"].map register) = false := by
    rw [List.map_cons, completes, ledger_reached]
    rfl
  exact ⟨thorough, fit, cut, cancelled_recovers _ _ _ thorough fit⟩

end VaultSchema.Engine
