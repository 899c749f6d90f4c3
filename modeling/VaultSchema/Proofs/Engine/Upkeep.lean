import VaultSchema.Proofs.Engine.Keeping

set_option autoImplicit false

namespace VaultSchema.Engine

variable {k : Coverage} {e f : Engine} {s : Schema}

@[simp] theorem leads_refreshCached {id : String} {p : Unit → Engine → Prop} :
    Leads (refreshCached id) e p ↔
      p () { e with cache := e.cache.map fun c => c.updateViolations id (e.violations.ofNote id) } := by
  unfold refreshCached
  simp only [leads_bind, leads_get, leads_onCache]

@[simp] theorem leads_reportDuplicate {v : Violation} {p : Unit → Engine → Prop} :
    Leads (reportDuplicate s v) e p ↔
      p () { e with violations :=
        e.violations.replaceField v.document s.id v.field .duplicateValue [v] } :=
  leads_onViolations

theorem Keeping.refreshAll (h : Keeping k e) (ids : List String) :
    Leads (each refreshCached ids) e fun _ after =>
      Keeps e after ∧ Keeping { k with behind := fun j => k.behind j ∧ j ∉ ids } after := by
  refine leads_each (fun done after => Keeps e after ∧
    Keeping { k with behind := fun j => k.behind j ∧ j ∉ done } after) ?_ ?_
  · exact ⟨.refl e, h.leave fun id behind => ⟨behind, by simp⟩⟩
  · intro done id rest _ now both
    obtain ⟨keeps, keeping⟩ := both
    rw [leads_refreshCached]
    refine ⟨keeps.onCache _, (keeping.refresh id).leave fun j behind => ⟨behind.1.1, ?_⟩⟩
    simp [behind.1.2, behind.2]

theorem Keeping.reportDuplicates (h : Keeping k e) (vs : List Violation) :
    Leads (reportDuplicates s vs) e fun _ after => Keeps e after ∧ Keeping k after := by
  unfold Engine.reportDuplicates
  rw [leads_bind]
  refine (leads_each (fun done after => Keeps e after ∧ Keeping { k with
    behind := fun j => k.behind j ∨ j ∈ done.map (·.document) } after) ?_ ?_).mono ?_
  · exact ⟨.refl e, h.leave fun id behind => Or.inl behind⟩
  · intro done v rest _ now both
    obtain ⟨keeps, keeping⟩ := both
    rw [leads_reportDuplicate]
    refine ⟨keeps.onViolations _, (keeping.violations (keeping.tidy.replaceField _ _ _ _ _)
      (keeping.filed.replaceField (by simp)) (· = v.document) ?_).leave ?_⟩
    · intro id other
      rw [ViolationStore.ofNote_replaceField, if_neg (Ne.symm other)]
    · intro id behind
      rcases behind with (behind | mem) | here
      · exact Or.inl behind
      · exact Or.inr (by simp [mem])
      · exact Or.inr (by simp [here])
  · intro _ mid both
    obtain ⟨keeps, keeping⟩ := both
    refine (keeping.refreshAll _).mono ?_
    intro _ after done
    refine ⟨keeps.trans done.1, done.2.leave fun id behind => ?_⟩
    rcases behind.1 with old | new
    · exact old
    · exact (behind.2 (by simpa using new)).elim

theorem Keeping.observe (h : Keeping k e) (seen : UniqueValues) (d : Document) :
    Leads (observe s seen d) e fun _ after => Keeps e after ∧ Keeping k after := by
  unfold Engine.observe
  dsimp only
  rw [leads_bind, leads_ofValue]
  intro vs _
  rw [leads_bind]
  exact (h.reportDuplicates vs).mono fun _ after both => leads_pure.2 both

theorem Keeping.observeAll (h : Keeping k e) (seen : UniqueValues) (ds : List Document) :
    Leads (observeAll s seen ds) e fun _ after => Keeps e after ∧ Keeping k after := by
  induction ds generalizing e seen with
  | nil =>
    rw [Engine.observeAll, leads_pure]
    exact ⟨.refl e, h⟩
  | cons d rest ih =>
    rw [Engine.observeAll, leads_bind]
    refine (h.observe seen d).mono ?_
    intro next mid both
    refine (ih both.2 next).mono ?_
    intro _ after done
    exact ⟨both.1.trans done.1, done.2⟩

theorem ofNote_removeKind_apart {v : ViolationStore} (tidy : v.Tidy) (filed : v.Filed) {id : String}
    (apart : id ∉ ((v.ofSchema s.id).filter (·.kind == .duplicateValue)).map (·.document)) :
    (v.removeKind s.id .duplicateValue).ofNote id = v.ofNote id := by
  unfold ViolationStore.removeKind
  rw [tidy.ofNote_removeWhere, List.filter_eq_self]
  intro w mem
  rw [Bool.not_eq_true', ← Bool.not_eq_true, Bool.and_eq_true, beq_iff_eq, beq_iff_eq]
  rintro ⟨schema, kind⟩
  refine apart (List.mem_map.2 ⟨w, ?_, filed id w mem⟩)
  rw [List.mem_filter, tidy.mem_ofSchema, beq_iff_eq]
  exact ⟨⟨schema, id, mem⟩, kind⟩

theorem Keeping.rescan (h : Keeping k e) :
    Leads (rescan s) e fun _ after => Keeps e after ∧ Keeping k after := by
  unfold Engine.rescan
  split
  · rw [leads_pure]
    exact ⟨.refl e, h⟩
  · simp only [leads_bind, leads_get, leads_ofValue, leads_batched, leads_onViolations]
    intro notes _
    have begun := h.congr ((Keeps.refl e).onViolations e.violations.beginBatch).alike rfl rfl
    have removed := begun.violations (begun.tidy.removeWhere _) (begun.filed.removeWhere begun.tidy _)
      (· ∈ ((e.violations.beginBatch.ofSchema s.id).filter (·.kind == .duplicateValue)).map (·.document))
      (fun id apart => ofNote_removeKind_apart begun.tidy begun.filed apart)
    refine (removed.observeAll {} notes).mono ?_
    intro _ mid both
    refine (both.2.refreshAll _).mono ?_
    intro _ after done
    have keeps := (both.1.trans done.1).onViolations after.violations.endBatch
    refine ⟨⟨keeps.options, keeps.notes, keeps.blobs, keeps.index, keeps.schemaSet, keeps.cached⟩, ?_⟩
    refine (done.2.congr ((Keeps.refl after).onViolations after.violations.endBatch).alike rfl
      (ViolationStore.byNote_endBatch _)).leave fun id behind => ?_
    rcases behind.1 with old | new
    · exact old
    · exact (behind.2 (by simpa using new)).elim

def Coverage.visited (k : Coverage) (s : Schema) (ds : List Document) : Coverage :=
  { k with
    behind := fun id => k.behind id ∧ ∀ d ∈ ds, d.id ≠ id
    held := fun d => k.held d ∨ d ∈ ds
    lists := fun d schema => k.lists d schema ∨ d ∈ ds ∧ schema = s.id }

@[simp] theorem leads_validateNote {d : Document} {p : List Violation → Engine → Prop} :
    Leads (validateNote d s) e p ↔ ∀ vs, e.check d s = .ok vs →
      p vs { e with
        violations := e.violations.setSchema d.id s.id vs
        cache := e.cache.map fun c => c.addSchema d.id d.mtime s.id
          ((e.violations.setSchema d.id s.id vs).ofNote d.id) } := by
  unfold validateNote
  simp only [leads_bind, leads_get, leads_ofCheck, leads_onViolations, leads_onCache, leads_pure]

/-- What an entry of a note lists stays listed with one more schema, since it is dated as the note. -/
theorem Kept.lists_addSchema {c : Cache} (h : Kept k e c) (distinct : e.notes.Distinct) {d : Document}
    (mem : d ∈ e.notes.notes) (sure : ¬ k.stray d.id) {schema : String}
    (listed : schema = s.id ∨ k.lists d schema) :
    schema ∈ (if c.isFresh d.id d.mtime then c.schemasOf d.id else []) ++ [s.id] := by
  have named := (Cache.mem_addSchema (c := c)).2 (listed.imp_right fun lists => by
    obtain ⟨entry, found, inside⟩ := h.lists d mem schema lists
    obtain ⟨b, there, dated⟩ := h.dated d.id entry found sure
    rw [(NoteStore.has_iff distinct).2 mem] at there
    cases there
    exact ⟨entry, found, dated, inside⟩)
  rwa [Text.mem_sorted, Text.mem_distinct] at named

theorem Kept.admits_addSchema {c : Cache} (h : Kept k e c) {d : Document} (mem : d ∈ e.notes.notes)
    (sure : ¬ k.stray d.id) (admitted : k.admits d s.id) {schema : String}
    (listed : schema ∈ (if c.isFresh d.id d.mtime then c.schemasOf d.id else []) ++ [s.id]) :
    k.admits d schema := by
  rw [← Text.mem_distinct, ← Text.mem_sorted] at listed
  rcases Cache.mem_addSchema.1 listed with rfl | ⟨entry, found, _, inside⟩
  · exact admitted
  · exact h.admits d mem entry found sure schema inside

theorem Keeping.validateNote (h : Keeping k e) (distinct : e.notes.Distinct) {d : Document}
    (mem : d ∈ e.notes.notes) (sure : ¬ k.stray d.id) (admitted : k.admits d s.id) :
    Leads (validateNote d s) e fun _ after => Keeps e after ∧ Keeping (k.visited s [d]) after := by
  rw [leads_validateNote]
  intro vs checked
  have stamped : ViolationStore.Stamped d.id s.id vs := found_of_check checked ▸ e.found_stamped d s
  have recorded := h.violations (v := e.violations.setSchema d.id s.id vs)
    (h.tidy.setSchema _ _ _) (h.filed.setSchema fun v mem => (stamped v mem).1) (· = d.id) (by
      intro id other
      rw [ViolationStore.ofNote_setSchema, if_neg (Ne.symm other)])
  have entered := recorded.enter distinct mem _ fun _ kept schema
    (listed : schema = s.id ∨ k.lists d schema) => kept.lists_addSchema distinct mem sure listed
  have entered := entered fun _ kept _ => kept.admits_addSchema mem sure admitted
  refine ⟨((Keeps.refl e).onCache _).onViolations _, entered.relax
    { Coverage.Relaxes.refl _ with stray := ?_, behind := ?_, held := ?_, lists := ?_ }⟩
  · exact fun id stray => stray.1
  · rintro id ⟨behind | here, other⟩
    · exact ⟨behind, by simpa using Ne.symm other⟩
    · exact (other here).elim
  · exact fun b held => held.imp_right fun inside => by simpa using inside
  · intro b schema lists
    by_cases same : b = d
    · subst same
      exact Or.inl ⟨rfl, lists.symm.imp_left fun both => both.2⟩
    · rcases lists with lists | ⟨inside, _⟩
      · exact Or.inr ⟨same, lists⟩
      · exact (same (by simpa using inside)).elim

theorem Keeping.visit (h : Keeping k e) (distinct : e.notes.Distinct) {d : Document}
    (mem : d ∈ e.notes.notes) (sure : ¬ k.stray d.id) (admitted : k.admits d s.id)
    (seen : UniqueValues) : Leads (visit s seen d) e fun _ after => Keeps e after ∧ Keeping (k.visited s [d]) after := by
  unfold Engine.visit
  rw [leads_bind, leads_discard]
  refine (h.validateNote distinct mem sure admitted).mono ?_
  intro _ mid both
  split
  · refine (both.2.observe seen d).mono ?_
    intro _ after done
    exact ⟨both.1.trans done.1, done.2⟩
  · rw [leads_pure]
    exact both

theorem Coverage.visited_nil (k : Coverage) (s : Schema) : k.Relaxes (k.visited s []) := by
  refine { Coverage.Relaxes.refl k with behind := ?_, held := ?_, lists := ?_ }
  · exact fun id behind => ⟨behind, by simp⟩
  · exact fun d held => held.elim id fun inside => absurd inside List.not_mem_nil
  · exact fun d schema lists => lists.elim id fun both => absurd both.1 List.not_mem_nil

theorem Coverage.visited_visited (k : Coverage) (s : Schema) (ds more : List Document) :
    ((k.visited s ds).visited s more).Relaxes (k.visited s (ds ++ more)) := by
  refine { Coverage.Relaxes.refl _ with behind := ?_, held := ?_, lists := ?_ }
  · rintro id ⟨⟨behind, before⟩, after⟩
    exact ⟨behind, fun d mem => (List.mem_append.1 mem).elim (before d) (after d)⟩
  · rintro d (held | mem)
    · exact Or.inl (Or.inl held)
    · exact (List.mem_append.1 mem).elim (fun h => Or.inl (Or.inr h)) Or.inr
  · rintro d schema (lists | ⟨mem, same⟩)
    · exact Or.inl (Or.inl lists)
    · exact (List.mem_append.1 mem).elim (fun h => Or.inl (Or.inr ⟨h, same⟩)) fun h => Or.inr ⟨h, same⟩

theorem Keeping.visitAll (h : Keeping k e) (distinct : e.notes.Distinct) {ds : List Document}
    (mem : ∀ d ∈ ds, d ∈ e.notes.notes) (sure : ∀ id, ¬ k.stray id)
    (admitted : ∀ d ∈ ds, k.admits d s.id) (seen : UniqueValues) (position : Nat)
    (cancel : Cancellation) :
    Leads (visitAll s seen position cancel ds) e fun r after =>
      r = (reach e.options position cancel ds).2 ∧ Keeps e after ∧
        Keeping (k.visited s (reach e.options position cancel ds).1) after := by
  -- Visited notes leave what is behind, so what is to be kept changes along with the notes still to come.
  induction ds generalizing e k seen position cancel with
  | nil =>
    rw [Engine.visitAll, leads_pure]
    exact ⟨rfl, .refl e, h.relax (k.visited_nil s)⟩
  | cons d rest ih =>
    rw [Engine.visitAll, reach]
    simp only [leads_bind, leads_get]
    generalize (if atBoundary e.options position then cancel.boundary else (false, cancel)) = boundary
    obtain ⟨stop, cancel⟩ := boundary
    cases stop with
    | true =>
      simp only [if_true, leads_pure]
      exact ⟨trivial, .refl e, h.relax (k.visited_nil s)⟩
    | false =>
      simp only [Bool.false_eq_true, if_false, leads_bind]
      refine (h.visit distinct (mem d (by simp)) (sure d.id) (admitted d (by simp)) seen).mono ?_
      rintro next mid ⟨keeps, keeping⟩
      refine (ih keeping (by rw [keeps.notes]; exact distinct) ?_ sure ?_ next _ cancel).mono ?_
      · intro b inside
        rw [keeps.notes]
        exact mem b (by simp [inside])
      · exact fun b inside => admitted b (by simp [inside])
      · rintro r after ⟨ended, more, keeping⟩
        rw [keeps.options] at ended keeping
        exact ⟨ended, keeps.trans more, keeping.relax (k.visited_visited s [d] _)⟩

theorem Keeping.sign (h : Keeping k e) (mem : s ∈ e.schemaSet.schemas) {c signed : Cache}
    (cached : e.cache = some c) (signs : c.updateHash s e.schemaSet.registry = .ok signed) :
    Keeping { k with
      printed := fun t => k.printed t ∨ t = s
      signs := fun t => k.signs t ∨ t = s } { e with cache := some signed } := by
  obtain ⟨digest, prints, signs⟩ := Outcome.bind_eq_ok.1 signs
  cases signs
  obtain ⟨held, same, kept⟩ := h.kept
  rw [cached] at same
  cases same
  have put := Table.get?_put c.hashes s.id
  refine ⟨h.tidy, h.filed, _, rfl, kept.writable.putHash _ _, kept.dated, kept.current, kept.held, kept.lists,
    kept.admits, ?_⟩
  refine ⟨kept.signed.settings, kept.signed.made, rfl, Table.nodup_put kept.signed.distinct _ _, ?_, ?_⟩
  · intro schema other found
    dsimp only [Cache.changed] at found
    rw [put] at found
    split at found
    · rename_i here
      cases found
      exact ⟨s, mem, here, Or.inr rfl, prints⟩
    · obtain ⟨t, inside, same, signs, prints⟩ := kept.signed.known schema other found
      exact ⟨t, inside, same, Or.inl signs, prints⟩
  · intro t inside printed
    dsimp only [Cache.changed]
    rw [put]
    split
    · exact ⟨digest, rfl⟩
    · rename_i other
      rcases printed with printed | rfl
      · exact kept.signed.printed t inside printed
      · exact (other rfl).elim

def Coverage.passed (k : Coverage) (s : Schema) (ds : List Document) : Coverage :=
  { k.visited s ds with
    printed := fun t => k.printed t ∨ t = s ∧ s.enabled = true
    signs := fun t => k.signs t ∨ t = s ∧ s.enabled = true }

def Coverage.reached (k : Coverage) (s : Schema) (r : List Document × Bool × Cancellation) : Coverage :=
  if r.2.1 then k.passed s r.1 else k.visited s r.1

theorem Keeping.dropReports (h : Keeping k e) (quiet : ∀ id, ∀ v ∈ e.violations.ofNote id, v.schema ≠ s.id) :
    Keeping k { e with violations := e.violations.removeKind s.id .duplicateValue } := by
  refine (h.violations (h.tidy.removeWhere _) (h.filed.removeWhere h.tidy _)
    (fun _ => False) fun id _ => ofNote_removeKind_apart h.tidy h.filed ?_).leave
      fun id behind => behind.elim (fun b => b) False.elim
  intro listed
  obtain ⟨v, reported, _⟩ := List.mem_map.1 listed
  obtain ⟨schema, j, held⟩ := h.tidy.mem_ofSchema.1 (List.mem_of_mem_filter reported)
  exact quiet j v held schema

/-- The notes that a pass over a schema comes to, when nothing is said by it yet. -/
theorem Keeping.visitChosen (h : Keeping k e) (sound : e.Sound) (sure : ∀ id, ¬ k.stray id)
    (admitted : ∀ d ∈ e.chosen s, k.admits d s.id) (quiet : ∀ id, ∀ v ∈ e.violations.ofNote id, v.schema ≠ s.id)
    (cancel : Cancellation) :
    Leads (do
      if s.hasUniqueFields then onViolations fun v => v.removeKind s.id .duplicateValue
      Engine.visitAll s {} 0 cancel (e.chosen s)) e fun r after =>
        r = (e.reached s cancel).2 ∧ Keeps e after ∧ Keeping (k.visited s (e.reached s cancel).1) after := by
  have chosen : ∀ d ∈ e.chosen s, d ∈ e.notes.notes := fun d inside => (mem_chosen.1 inside).1
  split
  · rw [leads_bind, leads_onViolations]
    refine ((h.dropReports quiet).visitAll sound.notes chosen sure admitted {} 0 cancel).mono ?_
    rintro r after ⟨same, keeps, keeping⟩
    exact ⟨same, ((Keeps.refl e).onViolations _).trans keeps, keeping⟩
  · exact h.visitAll sound.notes chosen sure admitted {} 0 cancel

theorem Keeping.validateSchema (h : Keeping k e) (sound : e.Sound) (mem : s ∈ e.schemaSet.schemas)
    (sure : ∀ id, ¬ k.stray id) (admitted : ∀ d ∈ e.chosen s, k.admits d s.id)
    (quiet : ∀ id, ∀ v ∈ e.violations.ofNote id, v.schema ≠ s.id) (cancel : Cancellation) :
    Leads (validateSchema s cancel) e fun _ after =>
      Keeps e after ∧ Keeping (k.reached s (e.reached s cancel)) after := by
  have batch : Keeps e { e with violations := e.violations.beginBatch } := (Keeps.refl e).onViolations _
  have begun := h.congr batch.alike rfl rfl
  unfold Engine.validateSchema
  cases enabled : s.enabled with
  | false =>
    have none : e.chosen s = [] := by
      simp [Engine.chosen, List.filter_eq_nil_iff, accepts_of_not_enabled enabled]
    simp only [Bool.not_false, if_true, leads_pure]
    rw [Engine.reached, none, reach, Coverage.reached, if_pos rfl]
    have visited := k.visited_nil s
    refine ⟨.refl e, h.relax { visited with printed := ?_, signs := ?_ }⟩
    · exact fun t printed => printed.elim (fun h => h) fun both =>
        absurd (enabled.symm.trans both.2) Bool.false_ne_true
    · exact fun t signs => Or.inl signs
  | true =>
    simp only [Bool.not_true, Bool.false_eq_true, if_false, leads_bind, leads_get, leads_ofValue,
      leads_batched]
    intro notes selected
    rw [sound.selected mem] at selected
    cases selected
    refine (begun.visitChosen (sound.keeps batch) sure admitted quiet cancel).mono ?_
    rintro ⟨finished, next⟩ mid ⟨same, more, keeping⟩
    change (finished, next) = (e.reached s cancel).2 at same
    have keeps := batch.trans more
    have ended := keeping.congr ((Keeps.refl mid).onViolations mid.violations.endBatch).alike rfl
      (ViolationStore.byNote_endBatch _)
    obtain ⟨c, cached, _⟩ := ended.kept
    rw [Coverage.reached, ← same]
    cases finished with
    | false =>
      simp only [Bool.false_eq_true, if_false, leads_pure]
      exact ⟨keeps.onViolations _, ended⟩
    | true =>
      simp only [if_true, leads_bind, leads_get]
      rw [cached]
      simp only [leads_bind, leads_ofValue, leads_set, leads_pure]
      intro signed signs
      refine ⟨⟨keeps.options, keeps.notes, keeps.blobs, keeps.index, keeps.schemaSet, ?_⟩,
        (ended.sign (by rw [keeps.schemaSet]; exact mem) cached signs).relax
          { Coverage.Relaxes.refl _ with printed := ?_, signs := ?_ }⟩
      · rw [← keeps.cached, show mid.cache = some c from cached]
        rfl
      · exact fun t printed => printed.imp_right fun both => both.1
      · exact fun t signs => signs.imp_right fun same => ⟨same, enabled⟩

/-- A note that no pass has visited gets an entry. One with an entry keeps it, since it is dated as the
note. -/
theorem Keeping.cacheUnmatched (h : Keeping k e) (distinct : e.notes.Distinct) {d : Document}
    (mem : d ∈ e.notes.notes) (sure : ∀ id, ¬ k.stray id) :
    Leads (cacheUnmatched d) e fun _ after =>
      Keeps e after ∧ Keeping { k with held := fun b => k.held b ∨ b = d } after := by
  unfold Engine.cacheUnmatched
  simp only [leads_bind, leads_get, leads_onCache]
  refine ⟨(Keeps.refl e).onCache _, ?_⟩
  obtain ⟨c, cached, kept⟩ := h.kept
  rw [cached, Option.map_some]
  have there := (NoteStore.has_iff distinct).2 mem
  cases fresh : c.isFresh d.id d.mtime with
  | true =>
    rw [if_pos rfl]
    refine ⟨h.tidy, h.filed, c, rfl, kept.writable, kept.dated, kept.current, ?_, kept.lists,
      kept.admits, kept.signed.follow rfl rfl (.refl c)⟩
    rintro b inside (held | rfl)
    · exact kept.held b inside held
    · unfold Cache.isFresh at fresh
      cases found : c.notes.get? b.id with
      | none => simp [found] at fresh
      | some entry => exact ⟨entry, rfl⟩
  | false =>
    rw [if_neg Bool.false_ne_true]
    have entered := h.enter distinct mem (fun _ => []) (fun _ _ _ (none : False) => none.elim)
      fun _ _ _ none => absurd none List.not_mem_nil
    rw [cached, Option.map_some] at entered
    refine entered.relax { Coverage.Relaxes.refl _ with
      stray := fun _ stray => stray.1
      behind := fun _ behind => behind.1
      lists := ?_ }
    intro b schema lists
    by_cases same : b = d
    · subst same
      obtain ⟨entry, found, _⟩ := kept.lists b mem schema lists
      obtain ⟨_, this, dated⟩ := kept.dated b.id entry found (sure b.id)
      rw [there] at this
      cases this
      rw [Cache.isFresh, found, Option.any_some, dated] at fresh
      cases fresh
    · exact Or.inr ⟨same, lists⟩

theorem Keeping.cacheUnmatchedAll (h : Keeping k e) (distinct : e.notes.Distinct)
    (sure : ∀ id, ¬ k.stray id) :
    Leads (each Engine.cacheUnmatched e.notes.listed) e fun _ after =>
      Keeping { k with held := fun _ => True } after := by
  refine (leads_each (fun done after => Keeps e after ∧
    Keeping { k with held := fun b => k.held b ∨ b ∈ done } after) ?_ ?_).mono ?_
  · refine ⟨.refl e, h.relax { Coverage.Relaxes.refl _ with held := ?_ }⟩
    exact fun d held => held.elim (fun h => h) fun inside => absurd inside List.not_mem_nil
  · intro done d rest all now both
    have mem : d ∈ now.notes.notes := by
      rw [both.1.notes, ← NoteStore.mem_listed, all]
      simp
    refine (both.2.cacheUnmatched (by rw [both.1.notes]; exact distinct) mem sure).mono ?_
    intro _ after more
    refine ⟨both.1.trans more.1, more.2.relax { Coverage.Relaxes.refl _ with held := ?_ }⟩
    intro b held
    simpa [or_assoc] using held
  · intro _ after both
    obtain ⟨keeps, keeping⟩ := both
    obtain ⟨c, cached, kept⟩ := keeping.kept
    refine ⟨keeping.tidy, keeping.filed, c, cached, kept.writable, kept.dated, kept.current, ?_,
      kept.lists, kept.admits, kept.signed⟩
    intro d mem _
    refine kept.held d mem (Or.inr ?_)
    rwa [keeps.notes, ← NoteStore.mem_listed] at mem

def Coverage.passes (k : Coverage) (schemas : List Schema) : Coverage where
  stray := k.stray
  behind := k.behind
  held := k.held
  lists d schema := k.lists d schema ∨ ∃ s ∈ schemas, s.accepts d = true ∧ s.id = schema
  admits := k.admits
  printed s := k.printed s ∨ s ∈ schemas ∧ s.enabled = true
  signs s := k.signs s ∨ s ∈ schemas ∧ s.enabled = true

theorem ExactFor.quiet {schemas : List Schema} {ready : String → Prop} {due : Schema → Prop}
    (exact : e.ExactFor schemas ready due) (new : ∀ t ∈ schemas, t.id ≠ s.id) (id : String) :
    ∀ v ∈ e.violations.ofNote id, v.schema ≠ s.id := by
  intro v held same
  obtain ⟨t, inside, schema⟩ := exact.known id v held
  exact new t inside (schema.trans same)

theorem Keeping.passes_append {schemas : List Schema} (h : Keeping ((k.passes schemas).passed s (e.chosen s)) f)
    (same : Alike e f) : Keeping (k.passes (schemas ++ [s])) f := by
  obtain ⟨c, cached, kept⟩ := h.kept
  have append : ∀ t, (t ∈ schemas ∨ t = s) ↔ t ∈ schemas ++ [s] := by simp
  refine ⟨h.tidy, h.filed, c, cached, kept.writable, kept.dated, ?_, ?_, ?_, kept.admits, ?_⟩
  · exact fun id entry found sure now => kept.current id entry found sure fun behind => now behind.1
  · exact fun d mem held => kept.held d mem (Or.inl held)
  · rintro d mem schema (lists | ⟨t, inside, accepts, named⟩)
    · exact kept.lists d mem schema (Or.inl (Or.inl lists))
    · rcases (append t).2 inside with inside | rfl
      · exact kept.lists d mem schema (Or.inl (Or.inr ⟨t, inside, accepts, named⟩))
      · rw [same.notes] at mem
        exact kept.lists d (same.notes ▸ mem) schema (Or.inr ⟨mem_chosen.2 ⟨mem, accepts⟩, named.symm⟩)
  · refine kept.signed.relax ?_ ?_
    · rintro t _ (printed | ⟨inside, enabled⟩)
      · exact Or.inl (Or.inl printed)
      · rcases (append t).2 inside with inside | rfl
        · exact Or.inl (Or.inr ⟨inside, enabled⟩)
        · exact Or.inr ⟨rfl, enabled⟩
    · rintro t _ ((signs | ⟨inside, enabled⟩) | ⟨rfl, enabled⟩)
      · exact Or.inl signs
      · exact Or.inr ⟨(append t).1 (Or.inl inside), enabled⟩
      · exact Or.inr ⟨(append t).1 (Or.inr rfl), enabled⟩

theorem Keeping.validateSchemas {done rest : List Schema} (sound : e.Sound)
    (all : e.schemaSet.schemas = done ++ rest)
    (exact : e.ExactFor done (fun _ => True) fun _ => False) (h : Keeping (k.passes done) e)
    (sure : ∀ id, ¬ k.stray id)
    (admitted : ∀ s ∈ e.schemaSet.schemas, ∀ d, s.accepts d = true → k.admits d s.id) :
    Leads (validateSchemas none rest) e fun _ after => Keeping (k.passes (done ++ rest)) after := by
  induction rest generalizing e done with
  | nil =>
    rw [Engine.validateSchemas, leads_pure, List.append_nil]
    exact h
  | cons s rest ih =>
    have mem : s ∈ e.schemaSet.schemas := by simp [all]
    have new : ∀ t ∈ done, t.id ≠ s.id := fun t => Text.key_ne_of_nodup (all ▸ sound.schemas)
    rw [Engine.validateSchemas, leads_bind]
    refine ((exact.validateSchema_gives sound mem new).leads.and
      (h.validateSchema sound mem sure (fun d inside => admitted s mem d (mem_chosen.1 inside).2)
        (exact.quiet new) none)).mono ?_
    rintro _ mid ⟨⟨rfl, keeps, now⟩, _, keeping⟩
    rw [reached, reach_none] at keeping
    rw [List.append_cons]
    refine ih (sound.keeps keeps) ?_ now (keeping.passes_append keeps.alike) ?_
    · rw [keeps.schemaSet, all, List.append_assoc]
      rfl
    · rw [keeps.schemaSet]
      exact admitted

def Coverage.none (set : SchemaSet) : Coverage where
  held _ := False
  lists _ _ := False
  admits := Concerns set
  printed _ := False
  signs _ := False

theorem keeping_emptied {c : Cache} (cached : e.cache = some c)
    (settings : c.settings = e.options.fingerprint) :
    Keeping ((Coverage.none e.schemaSet).passes []) (emptied e) := by
  refine ⟨ViolationStore.tidy_clear _, ViolationStore.filed_clear _, c.clear,
    by unfold emptied; rw [cached]; rfl, ?_⟩
  refine ⟨Cache.writable_clear c, ?_, ?_, ?_, ?_, ?_, settings, rfl, rfl, List.nodup_nil, ?_, ?_⟩
  · rintro id entry ⟨⟩
  · rintro id entry ⟨⟩
  · rintro d _ ⟨⟩
  · rintro d _ schema (⟨⟨⟩⟩ | ⟨s, inside, _⟩)
    cases inside
  · rintro d _ entry ⟨⟩
  · rintro schema digest ⟨⟩
  · rintro s _ (⟨⟨⟩⟩ | ⟨inside, _⟩)
    cases inside

/-- After passes over all schemas the notes that none of them selects get their entries. -/
theorem Keeping.complete {set : SchemaSet} (h : Keeping ((Coverage.none set).passes set.schemas) e)
    (distinct : e.notes.Distinct) :
    Leads (each Engine.cacheUnmatched e.notes.listed) { e with violations := e.violations.mark } fun _ after =>
      Keeping (.full set) { after with violations := after.violations.endBatch } := by
  have marked := h.congr ((Keeps.refl e).onViolations e.violations.mark).alike rfl rfl
  refine (marked.cacheUnmatchedAll distinct fun _ h => h).mono ?_
  intro _ after done
  refine (done.congr ((Keeps.refl after).onViolations after.violations.endBatch).alike rfl
    (ViolationStore.byNote_endBatch _)).relax { Coverage.Relaxes.refl _ with
      lists := ?_, printed := ?_, signs := ?_ }
  · exact fun d schema lists => Or.inr lists
  · exact fun t printed => Or.inr printed
  · exact fun t _ => trivial

theorem validateAll_keeps {c : Cache} (startable : e.Startable) (sound : (started e).Sound)
    (cached : e.cache = some c) (settings : c.settings = e.options.fingerprint) :
    Leads (validateAll none) e fun _ after => Keeping (.full e.schemaSet) after := by
  rw [leads_validateAll startable]
  have cached : (started e).cache = some c := by
    unfold started
    split <;> exact cached
  have settings : c.settings = (started e).options.fingerprint := by
    rw [(alike_started e).options]
    exact settings
  rw [← (alike_started e).schemaSet]
  generalize started e = f at sound cached settings
  have cleared := keeping_emptied cached settings
  unfold fullPass
  simp only [leads_batched, leads_bind, leads_onViolations, leads_onCache, leads_get]
  change Leads (Engine.validateSchemas none (emptied f).schemaSet.schemas) (emptied f) _
  refine ((validateSchemas_gives (sound.keeps (keeps_emptied f)) rfl (exactFor_emptied f)).leads.and
    (cleared.validateSchemas (sound.keeps (keeps_emptied f)) rfl (exactFor_emptied f) (fun _ h => h)
      fun s mem d accepts => ⟨s, mem, accepts, rfl⟩)).mono ?_
  rintro _ mid ⟨⟨rfl, more, _⟩, keeping⟩
  simp only [if_true, leads_bind, leads_onViolations, leads_get, leads_pure]
  exact keeping.complete (by rw [more.notes]; exact sound.notes)

end VaultSchema.Engine
