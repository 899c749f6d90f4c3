import VaultSchema.Proofs.Cache.Payload
import VaultSchema.Proofs.Cache.Stored
import VaultSchema.Proofs.Engine.Resume
import VaultSchema.Proofs.Query.Indexes

set_option autoImplicit false

namespace VaultSchema

/-- Blobs that sessions can share: the cache can be written, and what is there of the index is a text. -/
structure BlobStore.Shareable (b : BlobStore) : Prop where
  works : b.failing = false
  free : b.blobs.get? Cache.blobName ≠ some .blocked
  readable : b.read TagIndex.blobName ≠ .garbled

namespace BlobStore

variable {b c : BlobStore}

theorem Shareable.beside (h : b.Shareable) (beside : b.Beside TagIndex.blobName c) : c.Shareable := by
  refine ⟨beside.failing.trans h.works, ?_, beside.readable h.readable⟩
  rw [beside.others Cache.blobName (by decide)]
  exact h.free

theorem Shareable.write? (h : b.Shareable) (text : String) :
    ∃ c, b.write? Cache.blobName text = some c ∧ c.Shareable := by
  have written : b.write? Cache.blobName text =
      some { b with blobs := b.blobs.put Cache.blobName (.text text), writes := b.writes + 1 } := by
    unfold BlobStore.write?
    rw [if_neg (by simp [h.works, h.free])]
  have beside := beside_write? written
  refine ⟨_, written, h.works, ?_, ?_⟩
  · rw [Table.get?_put, if_pos rfl]
    simp
  · rw [beside.read (by decide)]
    exact h.readable

end BlobStore

namespace Cache

theorem analyze_full {c : Cache} (other : c.made ≠ some c.settings) (set : SchemaSet) (notes : List Document) :
    c.analyze set notes = .ok (c.clear, { full := true }) := if_pos other

end Cache

namespace Engine

variable {e o : Engine} {c left : Cache} {k : Coverage} {cancel : Cancellation}

theorem started_of_ready (ready : e.index.ready = true) : started e = e := if_pos ready

def opened (e : Engine) : Engine :=
  if e.index.ready then { e with index := (e.index.reconcile e.notes).1 } else started e

theorem opened_of_new (new : e.index.ready = false) : opened e = started e := if_neg (by simp [new])

/-- An engine with an index that can be used and is current, and as it was otherwise. -/
structure Indexed (e o : Engine) : Prop where
  alike : Alike e o
  violations : o.violations = e.violations
  cache : o.cache = e.cache
  ready : o.index.ready = true
  current : o.index.index.Current e.notes
  beside : e.blobs.Beside TagIndex.blobName o.blobs

theorem started_indexed (current : e.index.ready = true → e.index.index.Current e.notes)
    (distinct : e.notes.Distinct) (readable : e.blobs.read TagIndex.blobName ≠ .garbled) :
    e.Startable ∧ Indexed e (started e) := by
  cases ready : e.index.ready with
  | true =>
    rw [started_of_ready ready]
    exact ⟨Or.inl ready, ⟨rfl, rfl, rfl⟩, rfl, rfl, ready, current ready, .refl _ _⟩
  | false =>
    have begun := e.index.start_begins distinct readable
    unfold started
    rw [if_neg (by simp [ready])]
    exact ⟨Or.inr begun.fault, ⟨rfl, rfl, rfl⟩, rfl, rfl, begun.ready, begun.current, begun.beside⟩

theorem opened_indexed (current : e.index.ready = true → e.index.index.Current e.notes)
    (distinct : e.notes.Distinct) (readable : e.blobs.read TagIndex.blobName ≠ .garbled) :
    Indexed e (opened e) := by
  cases ready : e.index.ready with
  | true =>
    unfold opened
    rw [if_pos ready]
    exact ⟨⟨rfl, rfl, rfl⟩, rfl, rfl, ready, (current ready).coherent.current_reconcile distinct, .refl _ _⟩
  | false =>
    rw [opened_of_new ready]
    exact (started_indexed current distinct readable).2

/-- Whether anything faults does not depend on which current index is used. -/
theorem Sound.reindexed {f : Engine} (sound : e.Sound) (alike : Alike e f)
    (current : e.index.index.Current e.notes) (current' : f.index.index.Current e.notes)
    (cached : f.cache.isSome → e.cache.isSome) : f.Sound := by
  refine sound.alike alike (fun s => ?_) cached
  unfold Engine.selected catalog
  rw [alike.notes, Catalog.selectFor_eq_of_current current' current]

def restore (cancel : Cancellation) : Option Cache → Run Unit
  | none => discard (validateAll cancel)
  | some c => do
    let analysis ← openCache c
    if analysis.full then discard (validateAll cancel) else resume analysis cancel

theorem gives_startup (startable : e.Startable) {p : Unit → Engine → Prop} :
    Gives (startup cancel) e p ↔ Gives (restore cancel e.cache) (opened e) p := by
  have continues : ∀ (c : Option Cache) (o : Engine), o.cache = c → (Gives (do
      match (← get).cache with
      | none => discard (validateAll cancel)
      | some c =>
        let analysis ← openCache c
        if analysis.full then discard (validateAll cancel) else resume analysis cancel) o p ↔
      Gives (restore cancel c) o p) := by
    intro c o cached
    rw [gives_bind, gives_get, cached]
    cases c <;> rfl
  unfold startup opened
  rw [gives_bind, gives_get]
  cases ready : e.index.ready with
  | true =>
    simp only [if_true]
    rw [gives_bind, reconcileIndex, gives_modify]
    exact continues _ _ rfl
  | false =>
    have fault := startable.resolve_left (by rw [ready]; exact Bool.false_ne_true)
    simp only [Bool.false_eq_true, if_false]
    rw [gives_bind, gives_startIndex fault, started, if_neg (by simp [ready])]
    exact continues _ _ rfl

theorem gives_openCache {p : Analysis → Engine → Prop} : Gives (openCache c) e p ↔
    ∃ loaded read, c.load e.blobs = .ok (loaded, read) ∧ ∃ after a,
      loaded.analyze e.schemaSet e.notes.listed = .ok (after, a) ∧ p a { e with cache := some after } := by
  unfold openCache
  simp only [gives_bind, gives_get, gives_ofValue, gives_modify, gives_pure, Prod.exists]

theorem Succeeds.keeps {f : Engine} (h : Succeeds o e) (keeps : Keeps e f) : Succeeds o f := by
  refine ⟨by rw [keeps.notes]; exact h.notes, ?_⟩
  rw [keeps.schemaSet]
  intro s mem t inside same digest before now
  have twin := h.schemas s mem t inside same digest before now
  exact ⟨twin.id, twin.accepts, fun d => (twin.found d).trans (keeps.alike.found d t).symm, twin.observations⟩

theorem Leaves.keeps {f : Engine} (h : Leaves k o e left) (keeps : Keeps e f) : Leaves k o f left :=
  { h with
    answers := by rw [keeps.schemaSet]; exact h.answers
    held := by rw [keeps.notes]; exact h.held }

theorem restore_anew {loaded : Cache} {read : Bool} (cached : e.cache = some c)
    (loads : c.load e.blobs = .ok (loaded, read)) (other : loaded.made ≠ some loaded.settings)
    (settings : loaded.settings = e.options.fingerprint) (ready : e.index.ready = true) (sound : e.Sound) :
    Gives (restore none (some c)) e fun _ done => Keeps e done ∧ done.Settled := by
  have keeps : Keeps e { e with cache := some loaded.clear } := ⟨rfl, rfl, rfl, rfl, rfl, by rw [cached]; rfl⟩
  have begun : started { e with cache := some loaded.clear } = { e with cache := some loaded.clear } :=
    started_of_ready ready
  have startable : { e with cache := some loaded.clear }.Startable := Or.inl ready
  unfold restore
  rw [gives_bind, gives_openCache]
  refine ⟨loaded, read, loads, _, _, Cache.analyze_full other _ _, ?_⟩
  rw [if_pos rfl, gives_discard]
  have sound := sound.keeps keeps
  rw [← begun] at sound
  refine ((validateAll_gives startable sound).and
    (validateAll_keeps (c := loaded.clear) startable sound rfl settings)).mono ?_
  rintro _ after ⟨⟨_, more, exact⟩, keeping⟩
  rw [begun] at more
  exact ⟨keeps.trans more, exact, by rw [more.schemaSet]; exact keeping⟩

theorem restore_reusing {loaded : Cache} {read : Bool} (cached : e.cache = some c)
    (loads : c.load e.blobs = .ok (loaded, read)) (made : loaded.made = some loaded.settings)
    (settings : loaded.settings = e.options.fingerprint) (notes : loaded.notes = left.notes)
    (hashes : loaded.hashes = left.hashes) (leaves : Leaves k o e left) (succeeds : Succeeds o e)
    (printed : ∀ s ∈ e.schemaSet.schemas, ∃ digest, s.fingerprint e.schemaSet.registry = .ok digest)
    (sound : e.Sound) : Gives (restore none (some c)) e fun _ done => Keeps e done ∧ done.Settled := by
  obtain ⟨after, a, found⟩ := Cache.exists_analyze made printed e.notes.listed
  have analyzed := Cache.analyzed sound.notes sound.schemas (by rw [notes]; exact leaves.kept.distinct)
    (by rw [hashes]; exact leaves.kept.signed.distinct) made found
  have keeps : Keeps e { e with cache := some after } := ⟨rfl, rfl, rfl, rfl, rfl, by rw [cached]; rfl⟩
  have reuses : Reuses k o { e with cache := some after } left loaded after a :=
    ⟨leaves.keeps keeps, sound.notes, succeeds.keeps keeps, notes, hashes, analyzed⟩
  unfold restore
  rw [gives_bind, gives_openCache]
  refine ⟨loaded, read, loads, after, a, found, ?_⟩
  rw [analyzed.full, if_neg Bool.false_ne_true]
  refine (resume_gives reuses (sound.keeps keeps) rfl settings made).mono ?_
  rintro _ done ⟨more, settled⟩
  exact ⟨keeps.trans more, settled⟩

/-- What an earlier session left in the blobs of a new one. -/
structure Inherits (k : Coverage) (o e : Engine) (left : Cache) : Prop where
  leaves : Leaves k o e left
  writable : left.Writable
  text : ∃ text, left.toText = .ok text ∧ e.blobs.read Cache.blobName = .found text
  succeeds : left.settings = e.options.fingerprint → Succeeds o e

theorem Inherits.restore_gives (h : Inherits k o e left) (cached : e.cache = some c)
    (settings : c.settings = e.options.fingerprint) (ready : e.index.ready = true) (sound : e.Sound)
    (printed : ∀ s ∈ e.schemaSet.schemas, ∃ digest, s.fingerprint e.schemaSet.registry = .ok digest) :
    Gives (restore none (some c)) e fun _ done => Keeps e done ∧ done.Settled := by
  obtain ⟨text, written, found⟩ := h.text
  have loads : c.load e.blobs = _ := h.writable.load written found
  by_cases same : left.settings = e.options.fingerprint
  · refine restore_reusing cached loads ?_ settings ?_ ?_ h.leaves (h.succeeds same) printed sound
    · rw [same, ← settings]
    · rfl
    · rfl
  · refine restore_anew cached loads ?_ settings ready sound
    simpa [settings] using same

theorem shutdown_gives (current : e.index.index.Current e.notes) (shareable : e.blobs.Shareable)
    (unsaved : ∀ c, e.cache = some c → c.writer.dirty = true ∧ c.Writable) :
    Gives shutdown e fun _ after => after.blobs.Shareable ∧ ∀ c, e.cache = some c →
      ∃ text, c.toText = .ok text ∧ after.blobs.read Cache.blobName = .found text := by
  obtain ⟨fault, beside⟩ := StoredIndex.flush_saves current e.blobs
  have shareable := shareable.beside beside
  unfold shutdown
  simp only [gives_bind, gives_get, gives_set, fault]
  cases cached : e.cache with
  | none => exact ⟨shareable, by simp⟩
  | some c =>
    obtain ⟨dirty, writable⟩ := unsaved c cached
    obtain ⟨text, written⟩ := writable.exists_toText
    obtain ⟨blobs, wrote, shared⟩ := shareable.write? text
    have flushed : c.flush (e.index.flush e.blobs).blobs =
        (⟨{}, blobs, none⟩ : Saved Writer).map c.withWriter := by
      rw [Cache.flush, written, Writer.flush_written dirty wrote]
    simp only [gives_bind, gives_set, flushed]
    refine ⟨shared, fun d same => ?_⟩
    cases same
    exact ⟨text, written, BlobStore.read_write? wrote⟩

end Engine
end VaultSchema
