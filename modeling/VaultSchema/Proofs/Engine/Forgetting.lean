import VaultSchema.Proofs.Engine.Recovery

/-! Starts that reuse results and are cancelled. The pass over a stale schema stops, but the schema
has its fingerprint and the violations are marked. So the next start finds nothing to do. -/

set_option autoImplicit false

namespace VaultSchema.Engine

open ViolationStore (own)

variable {o e : Engine} {k : Coverage} {c left loaded read after : Cache} {a : Analysis} {s : Schema}
  {cancel : Cancellation}

theorem resume_cut (reuses : Reuses k o e left read after a) (sound : e.Sound) (cached : e.cache = some after)
    (settings : read.settings = e.options.fingerprint) (made : read.made = some read.settings)
    (unchanged : a.notes = []) (complete : a.removed = []) (stale : a.schemas = [s.id])
    (mem : s ∈ e.schemaSet.schemas) (enabled : s.enabled = true) (cut : (e.reached s cancel).2.1 = false) :
    Gives (resume a cancel) e fun _ stopped => Keeps e stopped ∧
      (∀ id, (∀ d ∈ (e.reached s cancel).1, d.id ≠ id) → own s.id (stopped.violations.ofNote id) = []) ∧
        Keeping ((Coverage.reused e a).visited s (e.reached s cancel).1) stopped := by
  have exact := reuses.exactFor e.violations.beginBatch
  have keeping := reuses.keeping e.violations.beginBatch settings made
  have new : ∀ t ∈ e.fresh a, t.id ≠ s.id := by
    intro t mem
    simpa [stale] using (mem_fresh.1 mem).2
  obtain ⟨exact, keeping⟩ := exact.removeSchema keeping new
  have keeps : Keeps e { e with
      cache := some after
      violations := (e.violations.beginBatch.clear.add after.violations).removeSchema s.id } :=
    ⟨rfl, rfl, rfl, rfl, rfl, by rw [cached]⟩
  have found : e.schemaSet.find? s.id = some s := sound.find? mem
  unfold resume
  simp only [gives_batched, gives_bind, gives_onViolations, gives_get, cached, Option.map_some,
    Option.getD_some, unchanged, stale, each, revalidateStale, gives_pure, found]
  have ended := validateSchema_gives (sound.keeps keeps) mem exact.tidy enabled cancel
  have left := keeping.validateSchema (sound.keeps keeps) mem (fun _ h => h)
    (fun d chosen => ⟨s, mem, (mem_chosen.1 chosen).2, rfl⟩) (exact.quiet new) cancel
  refine (ended.and left).mono ?_
  rintro ⟨finished, next⟩ last ⟨⟨_, more, passed⟩, _, kept⟩
  rw [Coverage.reached, show ({ e with
      cache := some after
      violations := (e.violations.beginBatch.clear.add after.violations).removeSchema s.id } : Engine).reached
        s cancel = e.reached s cancel from rfl, cut, if_neg Bool.false_ne_true] at kept
  have rows : last.violations.mark.endBatch.byNote = last.violations.byNote := by simp
  have keeps := keeps.trans more
  simp only [complete, List.isEmpty_nil, Bool.not_true, Bool.or_self, Bool.false_eq_true, if_false,
    gives_onViolations]
  refine ⟨keeps.onViolations _, fun id apart => ?_, ?_⟩
  · rw [ViolationStore.ofNote_congr rows, passed.elsewhere s.id id fun _ => apart, List.eq_nil_iff_forall_not_mem]
    intro v said
    obtain ⟨held, same, _⟩ := ViolationStore.mem_own.1 said
    exact exact.quiet new id v held same
  · exact kept.congr ((Keeps.refl last).onViolations last.violations.mark.endBatch).alike rfl rows

theorem Kept.none_stale (kept : Kept k o left) (alike : Alike o e) (sound : e.Sound)
    (hashes : loaded.hashes = left.hashes) (prints : ∀ s, k.printed s)
    (analyzed : Cache.Analyzed e.schemaSet e.notes loaded after a) : a.schemas = [] := by
  have same := kept.signed
  rw [List.eq_nil_iff_forall_not_mem]
  intro id stale
  rcases (analyzed.stale id).1 stale with ⟨digest, now, differs⟩ | ⟨before, gone⟩
  · obtain ⟨s, mem, rfl, twice⟩ := (analyzed.printed id digest).1 now
    rw [alike.schemaSet] at mem twice
    obtain ⟨other, before⟩ := same.printed s mem (prints s)
    obtain ⟨t, inside, id, _, once⟩ := same.known s.id other before
    have both : t = s := sound.eq_of_id (by rwa [alike.schemaSet]) (by rwa [alike.schemaSet]) id
    rw [both, twice] at once
    cases once
    exact differs (by rw [hashes, before])
  · rw [hashes] at before
    obtain ⟨digest, before⟩ := Option.isSome_iff_exists.1 before
    obtain ⟨s, mem, named, _, once⟩ := same.known id digest before
    rw [← alike.schemaSet] at mem once
    rw [(analyzed.printed id digest).2 ⟨s, mem, named, once⟩] at gone
    cases gone

theorem Kept.entries_kept (kept : Kept k o left) (alike : Alike o e) (sound : e.Sound)
    (notes : loaded.notes = left.notes) (sure : ∀ id, ¬ k.stray id ∧ ¬ k.behind id) (holds : ∀ d, k.held d)
    (analyzed : Cache.Analyzed e.schemaSet e.notes loaded after a) (stale : a.schemas = []) :
    ∀ d ∈ e.notes.notes, ∃ entry, after.notes.get? d.id = some entry ∧
      entry.violations = o.violations.ofNote d.id := by
  intro d mem
  obtain ⟨entry, there⟩ := kept.held d (by rwa [← alike.notes]) (holds d)
  obtain ⟨b, here, dated⟩ := kept.dated d.id entry there (sure d.id).1
  rw [← alike.notes, (NoteStore.has_iff sound.notes).2 mem] at here
  cases here
  refine ⟨entry, (analyzed.kept d.id entry).2 ⟨by rw [notes, there], d, ?_, Binary64.equal_symm dated, ?_⟩,
    kept.current d.id entry there (sure d.id).1 (sure d.id).2⟩
  · exact (NoteStore.has_iff sound.notes).2 mem
  · simp [stale]

theorem restore_complete {held : Bool} (cached : e.cache = some c) (loads : c.load e.blobs = .ok (loaded, held))
    (made : loaded.made = some loaded.settings) (notes : loaded.notes = left.notes)
    (hashes : loaded.hashes = left.hashes) (kept : Kept k o left) (filed : o.violations.Filed)
    (sure : ∀ id, ¬ k.stray id ∧ ¬ k.behind id) (holds : ∀ d, k.held d) (prints : ∀ s, k.printed s)
    (alike : Alike o e)
    (printed : ∀ s ∈ e.schemaSet.schemas, ∃ digest, s.fingerprint e.schemaSet.registry = .ok digest)
    (sound : e.Sound) : Gives (restore cancel (some c)) e fun _ begun => Keeps e begun ∧
      ∀ d ∈ e.notes.notes, begun.violations.ofNote d.id = o.violations.ofNote d.id := by
  obtain ⟨after, a, found⟩ := Cache.exists_analyze made printed e.notes.listed
  have analyzed := Cache.analyzed sound.notes sound.schemas (by rw [notes]; exact kept.distinct)
    (by rw [hashes]; exact kept.signed.distinct) made found
  have stale := kept.none_stale alike sound hashes prints analyzed
  have entries := kept.entries_kept alike sound notes sure holds analyzed stale
  have unchanged := analyzed.unchanged fun d mem => (entries d mem).imp fun _ both => both.1
  have complete : a.removed = [] := by
    refine analyzed.complete fun id entry before => ?_
    rw [notes] at before
    obtain ⟨b, here, _⟩ := kept.dated id entry before (sure id).1
    exact ⟨b, by rwa [alike.notes]⟩
  rw [restore, gives_bind, gives_openCache]
  refine ⟨loaded, held, loads, after, a, found, ?_⟩
  rw [analyzed.full, if_neg Bool.false_ne_true]
  unfold resume
  simp only [gives_batched, gives_bind, gives_onViolations, gives_get, Option.map_some, Option.getD_some,
    unchanged, stale, complete, each, revalidateStale, gives_pure, List.isEmpty_nil, Bool.not_true, Bool.or_self,
    Bool.false_eq_true, if_false]
  refine ⟨⟨rfl, rfl, rfl, rfl, rfl, by rw [cached]; rfl⟩, fun d mem => ?_⟩
  have own : ∀ id entry, after.notes.get? id = some entry → ∀ v ∈ entry.violations, v.document = id := by
    intro id entry there v said
    have before := ((analyzed.kept id entry).1 there).1
    rw [notes] at before
    rw [kept.current id entry before (sure id).1 (sure id).2] at said
    exact filed id v said
  obtain ⟨entry, there, current⟩ := entries d mem
  rw [ViolationStore.ofNote_endBatch, ViolationStore.ofNote_mark, ViolationStore.ofNote_add,
    ViolationStore.ofNote_clear, List.nil_append, Cache.filter_violations analyzed.distinct own, there, ← current]
  rfl

def accounts (ids : List String) : Session where
  options := { batchSize := 1 }
  notes := ⟨[unnumbered "Dune.md", unnumbered "Emma.md"]⟩
  schemaSet := ⟨ids.map register, {}⟩

theorem accounts_untroubled {ids : List String} (schemas : ids.Nodup) {b : BlobStore} (shareable : b.Shareable) :
    (accounts ids).Untroubled b :=
  ⟨(ledger_fit schemas shareable).sound, (ledger_fit schemas shareable).printed, fun _ mem => absurd mem List.not_mem_nil,
    trivial⟩

theorem accounts_leave {ids : List String} (schemas : ids.Nodup) : Gives (do
    startup none
    shutdown) (ledger ids {}) fun _ first => first.blobs.Shareable ∧
      ∃ o left, (accounts ids).Left first.blobs o left := by
  have shareable : ({} : BlobStore).Shareable := ⟨rfl, by decide, by decide⟩
  have untroubled := accounts_untroubled schemas shareable
  have blank : ∀ c : Cache, c.load {} = .ok (c, false) := fun c => Cache.load_of_unread (Or.inl (by decide))
  rw [gives_bind]
  refine (Session.start_anew untroubled shareable blank).mono ?_
  rintro _ begun ⟨keeps, settled⟩
  exact Session.rest_gives untroubled shareable keeps settled

theorem ledger_succeeds {b : BlobStore} {o : Engine} {left : Cache} (h : (accounts ["books"]).Left b o left) {e : Engine}
    (alike : Alike (ledger ["books", "loans"] b) e) : Succeeds o e := by
  refine ⟨fun d mem c inside same _ => ?_, fun s mem t inside same _ _ _ => ?_⟩
  · rw [alike.notes] at inside
    rw [h.notes] at mem
    exact NoteStore.eq_of_id_eq (show ((accounts ["books"]).last.notes.map (·.id)).Nodup by decide) inside mem same.symm
  · rw [h.schemaSet] at mem
    rw [alike.schemaSet] at inside
    obtain rfl : s = register "books" := by simpa [accounts] using mem
    have twin : t = register "books" := by
      have either : t = register "books" ∨ t = register "loans" := by simpa [ledger, create] using inside
      refine either.resolve_right ?_
      rintro rfl
      exact absurd same (by decide)
    subst twin
    refine ⟨rfl, fun _ => rfl, fun d => ?_, fun _ => rfl⟩
    unfold Engine.found check
    rw [h.schemaSet, h.options, alike.schemaSet, alike.options]
    rfl

theorem ledger_analyzed {b : BlobStore} {o e : Engine} {left loaded after : Cache} {a : Analysis}
    (h : (accounts ["books"]).Left b o left) (alike : Alike (ledger ["books", "loans"] b) e)
    (notes : loaded.notes = left.notes) (hashes : loaded.hashes = left.hashes)
    (analyzed : Cache.Analyzed e.schemaSet e.notes loaded after a) :
    a.schemas = ["loans"] ∧ a.notes = [] ∧ a.removed = [] := by
  obtain ⟨_, cached, kept⟩ := h.settled.keeping.kept
  rw [h.cached] at cached
  cases cached
  have books : register "books" ∈ o.schemaSet.schemas := by simp [h.schemaSet, accounts]
  have only : ∀ s ∈ o.schemaSet.schemas, s = register "books" := by simp [h.schemaSet, accounts]
  have both : ∀ s ∈ e.schemaSet.schemas, s = register "books" ∨ s = register "loans" := by
    simp [alike.schemaSet, ledger, create]
  have loans : register "loans" ∈ e.schemaSet.schemas := by simp [alike.schemaSet, ledger, create]
  have registry : e.schemaSet.registry = o.schemaSet.registry := by
    rw [alike.schemaSet, h.schemaSet]
    rfl
  have same : e.notes = o.notes := by
    rw [alike.notes, h.notes]
    rfl
  obtain ⟨digest, before⟩ := kept.signed.printed _ books ⟨books, rfl⟩
  obtain ⟨_, inside, _, _, prints⟩ := kept.signed.known _ _ before
  rw [only _ inside, ← registry] at prints
  have stale : a.schemas = ["loans"] := by
    refine List.perm_singleton.1 ((List.perm_ext_iff_of_nodup analyzed.once (by simp)).2 fun id => ?_)
    rw [analyzed.stale, List.mem_singleton, hashes]
    constructor
    · rintro (⟨other, now, differs⟩ | ⟨there, gone⟩)
      · obtain ⟨s, mem, rfl, twice⟩ := (analyzed.printed _ other).1 now
        rcases both s mem with rfl | rfl
        · rw [prints] at twice
          cases twice
          exact absurd before differs
        · rfl
      · obtain ⟨other, there⟩ := Option.isSome_iff_exists.1 there
        obtain ⟨s, mem, rfl, _⟩ := kept.signed.known _ _ there
        rw [only s mem, (analyzed.printed _ digest).2 ⟨_, ?_, rfl, prints⟩] at gone
        · cases gone
        · simp [alike.schemaSet, ledger, create]
    · rintro rfl
      obtain ⟨other, now⟩ := analyzed.all _ loans
      refine Or.inl ⟨other, (analyzed.printed _ _).2 ⟨_, loans, rfl, now⟩, fun there => ?_⟩
      obtain ⟨s, mem, named, _⟩ := kept.signed.known _ _ there
      rw [only s mem] at named
      exact absurd named (by decide)
  refine ⟨stale, analyzed.unchanged fun d mem => ?_, analyzed.complete fun id entry before => ?_⟩
  · rw [same] at mem
    obtain ⟨entry, there⟩ := kept.held d mem trivial
    obtain ⟨c, here, dated⟩ := kept.dated d.id entry there fun h => h
    rw [← same] at here
    refine ⟨entry, (analyzed.kept d.id entry).2 ⟨by rw [notes, there], c, here, Binary64.equal_symm dated, ?_⟩⟩
    intro schema listed
    obtain ⟨s, inside, _, named⟩ := kept.admits d mem entry there (fun h => h) schema listed
    rw [stale, ← named, only s inside]
    decide
  · rw [notes] at before
    obtain ⟨d, here, _⟩ := kept.dated id entry before fun h => h
    exact ⟨d, by rw [same]; exact here⟩

theorem ledger_loads {ids : List String} {b : BlobStore} {text : String}
    (beside : b.Beside TagIndex.blobName (started (ledger ids b)).blobs) (writable : left.Writable)
    (settings : left.settings = (ledger ids b).options.fingerprint) (written : left.toText = .ok text)
    (found : b.read Cache.blobName = .found text) : ∃ loaded : Cache,
      Cache.load { settings := (ledger ids b).options.fingerprint } (started (ledger ids b)).blobs =
        .ok (loaded, true) ∧ loaded.made = some loaded.settings ∧
        loaded.settings = (ledger ids b).options.fingerprint ∧ loaded.notes = left.notes ∧
          loaded.hashes = left.hashes :=
  ⟨_, writable.load written (by rw [beside.read (by decide)]; exact found), congrArg some settings, rfl, rfl, rfl⟩

/-- The start that is cancelled after the first book says nothing of the loan of the second one, but leaves
an entry of every book and the fingerprint of every register. -/
theorem ledger_cut {b : BlobStore} (shareable : b.Shareable) {o : Engine} {left : Cache}
    (h : (accounts ["books"]).Left b o left) :
    Gives (startup (some 0)) (ledger ["books", "loans"] b) fun _ stopped =>
      Keeps (started (ledger ["books", "loans"] b)) stopped ∧ stopped.violations.marked = true ∧
        own "loans" (stopped.violations.ofNote "Emma.md") = [] ∧ ∃ k : Coverage, Keeping k stopped ∧
          (∀ id, ¬ k.stray id ∧ ¬ k.behind id) ∧ (∀ d, k.held d) ∧ ∀ s, k.printed s := by
  have fit := ledger_fit (show ["books", "loans"].Nodup by decide) shareable
  obtain ⟨startable, indexed⟩ := fit.started_indexed
  have leaves := h.settled.leaves h.sound h.cached (started (ledger ["books", "loans"] b))
  have writable := leaves.kept.writable
  obtain ⟨text, written, found⟩ := h.text
  have settings : left.settings = (ledger ["books", "loans"] b).options.fingerprint := by
    rw [leaves.kept.signed.settings, h.options]
    rfl
  obtain ⟨loaded, loads, made, settings, notes, hashes⟩ := ledger_loads indexed.beside writable settings written found
  rw [gives_startup startable, opened_of_new rfl, show (ledger ["books", "loans"] b).cache =
    some { settings := (ledger ["books", "loans"] b).options.fingerprint } from rfl, restore, gives_bind, gives_openCache]
  have printed := fit.printed
  rw [← indexed.alike.schemaSet] at printed
  obtain ⟨after, a, found⟩ := Cache.exists_analyze made printed (started (ledger ["books", "loans"] b)).notes.listed
  refine ⟨loaded, true, loads, after, a, found, ?_⟩
  have analyzed := Cache.analyzed fit.sound.notes fit.sound.schemas (by rw [notes]; exact leaves.kept.distinct)
    (by rw [hashes]; exact leaves.kept.signed.distinct) made found
  obtain ⟨stale, unchanged, complete⟩ := ledger_analyzed h indexed.alike notes hashes analyzed
  have keeps : Keeps (started (ledger ["books", "loans"] b))
      { started (ledger ["books", "loans"] b) with cache := some after } :=
    ⟨rfl, rfl, rfl, rfl, rfl, by rw [indexed.cache]; rfl⟩
  have reuses : Reuses (.full o.schemaSet) o { started (ledger ["books", "loans"] b) with cache := some after } left
      loaded after a :=
    ⟨leaves.keeps keeps, fit.sound.notes, (ledger_succeeds h indexed.alike).keeps keeps, notes, hashes, analyzed⟩
  have reached := (indexed.alike.trans keeps.alike).reached (register "loans") (some 0)
  rw [ledger_reached] at reached
  rw [analyzed.full, if_neg Bool.false_ne_true]
  have loans : register "loans" ∈ (started (ledger ["books", "loans"] b)).schemaSet.schemas := by
    rw [indexed.alike.schemaSet]
    simp [ledger, create]
  have options : loaded.settings = (started (ledger ["books", "loans"] b)).options.fingerprint := by
    rw [indexed.alike.options]
    exact settings
  have cut := resume_cut reuses (fit.sound.keeps keeps) rfl options made unchanged complete stale loans rfl
    (by rw [reached])
  -- The end of the start marks the violations although the pass was cut short.
  refine (cut.and (resume_marks a (some 0) _)).mono ?_
  rintro _ stopped ⟨⟨more, silent, keeping⟩, marked⟩
  refine ⟨keeps.trans more, marked, silent "Emma.md" ?_, _, keeping, ?_, ?_, fun _ => trivial⟩
  · rw [reached]
    decide
  · exact fun _ => ⟨fun h => h, fun behind => behind.1⟩
  · intro d
    refine Or.inl ?_
    show d.id ∉ a.notes
    simp [unchanged]

theorem ledger_restart {b : BlobStore} (shareable : b.Shareable) {stopped : Engine} {left : Cache} {k : Coverage}
    (alike : Alike (ledger ["books", "loans"] b) stopped) (kept : Kept k stopped left)
    (filed : stopped.violations.Filed) (sure : ∀ id, ¬ k.stray id ∧ ¬ k.behind id) (holds : ∀ d, k.held d)
    (prints : ∀ s, k.printed s) (silent : own "loans" (stopped.violations.ofNote "Emma.md") = [])
    (text : ∃ text, left.toText = .ok text ∧ b.read Cache.blobName = .found text) :
    Gives (startup none) (ledger ["books", "loans"] b) fun _ begun => ¬ begun.Validated := by
  have fit := ledger_fit (show ["books", "loans"].Nodup by decide) shareable
  obtain ⟨startable, indexed⟩ := fit.started_indexed
  obtain ⟨text, written, found⟩ := text
  have settings : left.settings = (ledger ["books", "loans"] b).options.fingerprint := by
    rw [kept.signed.settings, alike.options]
  obtain ⟨loaded, loads, made, _, notes, hashes⟩ :=
    ledger_loads indexed.beside kept.writable settings written found
  have printed := fit.printed
  rw [← indexed.alike.schemaSet] at printed
  rw [gives_startup startable, opened_of_new rfl, show (ledger ["books", "loans"] b).cache =
    some { settings := (ledger ["books", "loans"] b).options.fingerprint } from rfl]
  refine (restore_complete indexed.cache loads made notes hashes kept filed sure holds prints
    (alike.symm.trans indexed.alike) printed fit.sound).mono ?_
  rintro _ begun ⟨keeps, same⟩ validated
  have all := indexed.alike.trans keeps.alike
  have emma : unnumbered "Emma.md" ∈ (ledger ["books", "loans"] b).notes.notes := by simp [ledger, create]
  have loans : register "loans" ∈ (ledger ["books", "loans"] b).schemaSet.schemas := by simp [ledger, create]
  have ready : begun.index.ready = true := by
    rw [keeps.index]
    exact indexed.ready
  have sound : (started begun).Sound := by
    rw [started_of_ready ready]
    exact fit.sound.keeps keeps
  obtain ⟨_, full, _, ⟨_, perm⟩, _, more, exact⟩ := (validated.and (validateAll_gives (Or.inl ready) sound).leads).run
  rw [started_of_ready ready] at more
  have all := all.trans more.alike
  have checked : (ledger ["books", "loans"] b).check (unnumbered "Emma.md") (register "loans") =
      .ok [missingNumber "loans" "Emma.md"] := by
    unfold check
    rw [show (ledger ["books", "loans"] b).schemaSet.registry.validate (unnumbered "Emma.md").id
      (unnumbered "Emma.md").frontmatter (register "loans") (ledger ["books", "loans"] b).options.checkUnknown = _ from
        valid_unnumbered "loans" "Emma.md"]
    rfl
  have chosen : unnumbered "Emma.md" ∈ (ledger ["books", "loans"] b).chosen (register "loans") := by
    simp [ledger_chosen]
  have said := exact.own_eq (s := register "loans") (by rw [all.schemaSet]; exact loans) (unnumbered "Emma.md").id
  rw [all.ownOf, ownOf_accepted fit.distinct chosen, found_of_check checked] at said
  rw [← indexed.alike.notes] at emma
  have lost : (own "loans" (begun.violations.ofNote (unnumbered "Emma.md").id)).Perm
      (own (register "loans").id (full.violations.ofNote (unnumbered "Emma.md").id)) := (perm _).filter _
  rw [same _ emma, said, show own "loans" (stopped.violations.ofNote (unnumbered "Emma.md").id) = [] from silent] at lost
  simp at lost

/-- A ledger gets a second register, and the start that validates it is cancelled after one book. The
violations are marked all the same, and the next start does not find what is missing. -/
theorem ledger_forgets : Gives (do
    startup none
    shutdown) (ledger ["books"] {}) fun _ first =>
      Gives (startup (some 0)) (ledger ["books", "loans"] first.blobs) fun _ stopped =>
        stopped.violations.marked = true ∧ Gives shutdown stopped fun _ after =>
          Gives (startup none) ((ledger ["books", "loans"] first.blobs).reopened after.blobs {}) fun _ begun =>
            ¬ begun.Validated := by
  refine (accounts_leave (by decide)).mono ?_
  rintro _ first ⟨shareable, o, left, h⟩
  refine (ledger_cut shareable h).mono ?_
  rintro _ stopped ⟨keeps, marked, silent, k, keeping, sure, holds, prints⟩
  have fit := ledger_fit (show ["books", "loans"].Nodup by decide) shareable
  obtain ⟨_, indexed⟩ := fit.started_indexed
  obtain ⟨c, cached, kept⟩ := keeping.kept
  refine ⟨marked, ?_⟩
  have current : stopped.index.index.Current stopped.notes := by
    rw [keeps.index, keeps.notes, indexed.alike.notes]
    exact indexed.current
  have shared : stopped.blobs.Shareable := by
    rw [keeps.blobs]
    exact shareable.beside indexed.beside
  have unsaved : ∀ d, stopped.cache = some d → d.writer.dirty = true ∧ d.Writable := by
    rw [cached]
    rintro d ⟨⟩
    exact ⟨kept.signed.dirty, kept.writable⟩
  refine (shutdown_gives current shared unsaved).mono ?_
  rintro _ after ⟨shareable, text⟩
  have anew : Alike (ledger ["books", "loans"] after.blobs) (ledger ["books", "loans"] first.blobs) := ⟨rfl, rfl, rfl⟩
  have alike := anew.trans (indexed.alike.trans keeps.alike)
  exact ledger_restart shareable alike kept keeping.filed sure holds prints silent (text c cached)

end VaultSchema.Engine
