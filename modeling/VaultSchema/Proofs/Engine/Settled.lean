import VaultSchema.Proofs.Engine.Incremental
import VaultSchema.Proofs.Engine.Upkeep

set_option autoImplicit false

namespace VaultSchema.Engine

variable {k : Coverage} {e : Engine} {d : Document}

/-- The violations are those that they should be, and the cache is kept. -/
structure Settled (e : Engine) : Prop where
  exact : e.Exact
  keeping : Keeping (.full e.schemaSet) e

theorem Keeping.touching {α : Type} {id : String} {work : α → Run Unit} {l : List α}
    (h : Keeping { k with behind := fun j => k.behind j ∨ j = id } e)
    (step : ∀ a ∈ l, ∀ now, Keeps e now → Keeping { k with behind := fun j => k.behind j ∨ j = id } now →
      Leads (work a) now fun _ after => ∃ v : ViolationStore, after = { now with violations := v } ∧
        v.Tidy ∧ v.Filed ∧ ∀ j, j ≠ id → v.ofNote j = now.violations.ofNote j) :
    Leads (each work l) e fun _ after =>
      Keeps e after ∧ Keeping { k with behind := fun j => k.behind j ∨ j = id } after := by
  refine leads_each (fun _ after => Keeps e after ∧
    Keeping { k with behind := fun j => k.behind j ∨ j = id } after) ⟨.refl e, h⟩ ?_
  intro done a rest all now both
  refine (step a (by simp [all]) now both.1 both.2).mono ?_
  rintro _ after ⟨v, rfl, tidy, filed, others⟩
  refine ⟨both.1.onViolations v, (both.2.violations tidy filed (· = id) others).leave ?_⟩
  rintro j ((behind | here) | here)
  · exact Or.inl behind
  · exact Or.inr here
  · exact Or.inr here

def Coverage.renewed (k : Coverage) (set : SchemaSet) (d : Document) : Coverage :=
  { k with
    stray := fun j => k.stray j ∧ j ≠ d.id
    behind := fun j => k.behind j ∧ j ≠ d.id
    held := fun b => k.held b ∨ b = d
    lists := fun b schema => b = d ∧ Concerns set d schema ∨ b ≠ d ∧ k.lists b schema }

theorem mem_names {schema : String} :
    schema ∈ (e.applying d).map (·.id) ↔ Concerns e.schemaSet d schema := by
  simp only [List.mem_map, mem_applying, Concerns, and_assoc]

theorem Keeping.validateFully (h : Keeping k e) (sound : e.Sound) (mem : d ∈ e.notes.notes)
    (admitted : ∀ schema, Concerns e.schemaSet d schema → k.admits d schema) :
    Leads (validateFully d) e fun _ after => Keeps e after ∧ Keeping (k.renewed e.schemaSet d) after := by
  have begun : Keeping { k with behind := fun j => k.behind j ∨ j = d.id }
      { e with violations := e.violations.beginBatch } :=
    (h.congr ((Keeps.refl e).onViolations e.violations.beginBatch).alike rfl rfl).leave
      fun _ => Or.inl
  unfold Engine.validateFully
  simp only [leads_bind, leads_get, leads_ofValue, leads_batched]
  intro applied matching
  rw [sound.matching mem] at matching
  cases matching
  refine (begun.touching ?_).mono ?_
  · intro schema _ now _ keeping
    rw [leads_onViolations]
    refine ⟨_, rfl, keeping.tidy.removeNoteSchema _ _, keeping.filed.removeNoteSchema _ _, ?_⟩
    intro j other
    rw [ViolationStore.ofNote_removeNoteSchema, if_neg (Ne.symm other)]
  · rintro _ mid ⟨keeps, cleaned⟩
    refine (cleaned.touching ?_).mono ?_
    · intro s _ now _ keeping
      unfold recordResult
      simp only [leads_bind, leads_get, leads_ofCheck, leads_onViolations]
      intro vs checked
      have stamped : ViolationStore.Stamped d.id s.id vs :=
        found_of_check checked ▸ now.found_stamped d s
      refine ⟨_, rfl, keeping.tidy.setSchema _ _ _,
        keeping.filed.setSchema fun v mem => (stamped v mem).1, ?_⟩
      intro j other
      rw [ViolationStore.ofNote_setSchema, if_neg (Ne.symm other)]
    · rintro _ last ⟨more, recorded⟩
      have kept : Keeps e { last with violations := last.violations.endBatch } :=
        (((Keeps.refl e).onViolations _).trans (keeps.trans more)).onViolations _
      have ended := recorded.congr
        ((Keeps.refl last).onViolations last.violations.endBatch).alike rfl
          (ViolationStore.byNote_endBatch _)
      have entered := ended.enter (by rw [kept.notes]; exact sound.notes) (by rw [kept.notes]; exact mem)
        (fun _ => (e.applying d).map (·.id)) (fun _ _ schema => mem_names.2)
        fun _ _ schema named => admitted schema (mem_names.1 named)
      simp only [leads_onCache, leads_pure]
      refine ⟨kept.onCache _, entered.leave ?_⟩
      rintro j ⟨behind | here, other⟩
      · exact ⟨behind, other⟩
      · exact (other here).elim

theorem Keeping.rescans (h : Keeping k e) (schemas : List Schema) :
    Leads (each Engine.rescan schemas) e fun _ after => Keeps e after ∧ Keeping k after := by
  refine leads_each (fun _ after => Keeps e after ∧ Keeping k after) ⟨.refl e, h⟩ ?_
  intro _ s _ _ now both
  refine both.2.rescan.mono ?_
  intro _ after more
  exact ⟨both.1.trans more.1, more.2⟩

def Coverage.without (k : Coverage) (d : Document) : Coverage :=
  { k with
    stray := fun j => k.stray j ∨ j = d.id
    held := fun b => b ≠ d ∧ k.held b
    lists := fun b schema => b ≠ d ∧ k.lists b schema }

theorem Keeping.noteChanged {whole : String → Prop}
    (h : Keeping ((Coverage.part e.schemaSet whole).without d) e)
    (sound : { e with index := e.index.update d }.Sound) (mem : d ∈ e.notes.notes) :
    Leads (noteChanged d) e fun _ after =>
      Keeping (.part e.schemaSet fun j => whole j ∨ j = d.id) after := by
  have indexed : Keeping ((Coverage.part e.schemaSet whole).without d)
      { e with index := e.index.update d } := h.congr ⟨rfl, rfl, rfl⟩ rfl rfl
  unfold Engine.noteChanged
  simp only [leads_bind, leads_get, leads_onIndex]
  refine (indexed.validateFully sound mem fun _ concerns => concerns).mono ?_
  rintro _ mid ⟨keeps, keeping⟩
  refine (keeping.rescans _).mono ?_
  rintro _ after ⟨more, keeping⟩
  obtain ⟨c, cached, kept⟩ := keeping.kept
  have notes : after.notes = e.notes := (keeps.trans more).notes
  refine ⟨keeping.tidy, keeping.filed, c, cached, kept.writable, ?_, ?_, ?_, ?_, ?_, kept.signed⟩
  · exact fun id entry found sure => kept.dated id entry found fun stray => stray.1.elim sure stray.2
  · exact fun id entry found sure now => kept.current id entry found
      (fun stray => stray.1.elim sure stray.2) fun behind => now behind.1
  · exact fun b inside _ => kept.held b inside ((Classical.em (b = d)).symm.imp_left fun h => ⟨h, trivial⟩)
  · rintro b inside schema ⟨whole, concerns⟩
    refine kept.lists b inside schema ?_
    by_cases same : b = d
    · exact Or.inl ⟨same, same ▸ concerns⟩
    · have apart : b.id ≠ d.id := fun id =>
        same (NoteStore.eq_of_id_eq sound.notes (notes ▸ inside) mem id)
      exact Or.inr ⟨same, same, whole.resolve_right apart, concerns⟩
  · exact fun b inside entry found sure => kept.admits b inside entry found
      fun stray => stray.1.elim sure stray.2

/-- Entries outlast a change of notes wherever it does not touch them. -/
theorem Kept.carried {f : Engine} {c after : Cache} (h : Kept k e c) (touched : String → Prop)
    (untouched : Document → Prop) (options : f.options = e.options) (schemaSet : f.schemaSet = e.schemaSet)
    (writable : after.Writable) (frame : c.SameFrame after)
    (apart : ∀ b ∈ f.notes.notes, ¬ touched b.id → untouched b)
    (entries : ∀ id entry, ¬ touched id → after.notes.get? id = some entry → c.notes.get? id = some entry ∧
      f.notes.find? id = e.notes.find? id ∧ f.violations.ofNote id = e.violations.ofNote id)
    (there : ∀ b ∈ f.notes.notes, untouched b →
      b ∈ e.notes.notes ∧ after.notes.get? b.id = c.notes.get? b.id) :
    Kept { k with
      stray := fun j => k.stray j ∨ touched j
      held := fun b => untouched b ∧ k.held b
      lists := fun b schema => untouched b ∧ k.lists b schema } f after := by
  refine ⟨writable, ?_, ?_, ?_, ?_, ?_, h.signed.follow options schemaSet frame⟩
  · intro id entry found sure
    obtain ⟨before, note, _⟩ := entries id entry (fun t => sure (Or.inr t)) found
    rw [note]
    exact h.dated id entry before fun stray => sure (Or.inl stray)
  · intro id entry found sure now
    obtain ⟨before, _, said⟩ := entries id entry (fun t => sure (Or.inr t)) found
    rw [said]
    exact h.current id entry before (fun stray => sure (Or.inl stray)) now
  · intro b mem held
    obtain ⟨inside, same⟩ := there b mem held.1
    rw [same]
    exact h.held b inside held.2
  · intro b mem schema lists
    obtain ⟨inside, same⟩ := there b mem lists.1
    rw [same]
    exact h.lists b inside schema lists.2
  · intro b mem entry found sure
    obtain ⟨inside, same⟩ := there b mem (apart b mem fun t => sure (Or.inr t))
    rw [same] at found
    exact h.admits b inside entry found fun stray => sure (Or.inl stray)

variable {whole : String → Prop}

theorem Keeping.put (h : Keeping (.part e.schemaSet whole) e) (d : Document) :
    Keeping ((Coverage.part e.schemaSet whole).without d) { e with notes := e.notes.put d } := by
  obtain ⟨c, cached, kept⟩ := h.kept
  refine ⟨h.tidy, h.filed, c, cached, kept.carried (· = d.id) (· ≠ d)
    rfl rfl kept.writable (.refl c) ?_ ?_ ?_⟩
  · rintro b _ away rfl
    exact away rfl
  · intro id entry other found
    exact ⟨found, by rw [NoteStore.find?_put, if_neg fun same => other same.symm], rfl⟩
  · exact fun b mem other => ⟨((NoteStore.mem_put.1 mem).resolve_left other).1, rfl⟩

theorem Keeping.rename (h : Keeping (.part e.schemaSet whole) e) (old : String) {d : Document}
    (unused : e.violations.ofNote d.id = []) (x : StoredIndex) :
    Keeping ((Coverage.part e.schemaSet whole).without d) { e with
      notes := (e.notes.without old).put d
      index := x
      cache := e.cache.map (·.rename old d.id)
      violations := e.violations.rename old d.id } := by
  obtain ⟨c, cached, kept⟩ := h.kept
  refine ⟨h.tidy.rename _ _, h.filed.rename _ _, c.rename old d.id, by rw [cached]; rfl,
    kept.carried (· = d.id) (· ≠ d) rfl rfl (kept.writable.rename _ _)
      (c.sameFrame_rename _ _) ?_ ?_ ?_⟩
  · rintro b _ away rfl
    exact away rfl
  · intro id entry other found
    have other : d.id ≠ id := fun same => other same.symm
    rw [Cache.get?_rename c other] at found
    split at found
    · cases found
    · rename_i apart
      dsimp only
      rw [NoteStore.find?_put, if_neg other, NoteStore.find?_without, if_neg apart,
        ViolationStore.ofNote_rename unused, if_neg other, if_neg apart]
      exact ⟨found, rfl, rfl⟩
  · intro b mem other
    obtain ⟨inside, apart⟩ := (NoteStore.mem_put.1 mem).resolve_left other
    obtain ⟨there, away⟩ := NoteStore.mem_without.1 inside
    exact ⟨there, by rw [Cache.get?_rename c (Ne.symm apart), if_neg (Ne.symm away)]⟩

theorem Keeping.delete (h : Keeping (.part e.schemaSet whole) e) (id : String) (x : StoredIndex) :
    Keeping (.part e.schemaSet whole) { e with
      notes := e.notes.without id
      index := x
      cache := e.cache.map (·.remove id)
      violations := e.violations.removeNote id } := by
  obtain ⟨c, cached, kept⟩ := h.kept
  have relaxes : Coverage.Relaxes { Coverage.part e.schemaSet whole with
      stray := fun j => (Coverage.part e.schemaSet whole).stray j ∨ False
      held := fun b => True ∧ (Coverage.part e.schemaSet whole).held b
      lists := fun b schema => True ∧ (Coverage.part e.schemaSet whole).lists b schema }
      (.part e.schemaSet whole) :=
    { Coverage.Relaxes.refl _ with
      stray := fun _ stray => stray.elim (fun h => h) False.elim
      held := fun _ held => ⟨trivial, held⟩
      lists := fun _ _ lists => ⟨trivial, lists⟩ }
  refine ⟨h.tidy.removeNote _, h.filed.removeNote _, c.remove id, by rw [cached]; rfl,
    Kept.relax (kept.carried (fun _ => False) (fun _ => True) rfl rfl (kept.writable.remove _)
      (c.sameFrame_remove _) (fun _ _ _ => trivial) ?_ ?_) relaxes⟩
  · intro j entry _ found
    rw [Cache.get?_remove] at found
    split at found
    · cases found
    · rename_i apart
      dsimp only
      rw [NoteStore.find?_without, if_neg apart, ViolationStore.ofNote_removeNote, if_neg apart]
      exact ⟨found, rfl, rfl⟩
  · intro b mem _
    obtain ⟨inside, apart⟩ := NoteStore.mem_without.1 mem
    exact ⟨inside, by rw [Cache.get?_remove, if_neg (Ne.symm apart)]⟩

def Shared (e : Engine) (schema path : String) : Prop :=
  ∃ d ∈ e.notes.notes, d.id = path ∧ Concerns e.schemaSet d schema ∧
    ∃ other, other ≠ schema ∧ Concerns e.schemaSet d other

def Coverage.lacking (e : Engine) (whole : String → Prop) (schema : String) : Coverage :=
  { Coverage.part e.schemaSet whole with
    behind := fun j => ∃ d ∈ e.notes.notes, d.id = j ∧ Concerns e.schemaSet d schema
    held := fun d => ¬ Concerns e.schemaSet d schema
    lists := fun d other =>
      ¬ Concerns e.schemaSet d schema ∧ whole d.id ∧ Concerns e.schemaSet d other
    admits := fun d other => Concerns e.schemaSet d other ∧
      (whole d.id → Concerns e.schemaSet d schema → other = schema) }

/-- Entries list no schema that does not apply, so only entries of notes to which the schema applies
are dropped, and all of these if they are of whole notes. -/
theorem Keeping.lack (h : Keeping (.part e.schemaSet whole) e) (exact : e.Exact) (schema : String) :
    Keeping (.lacking e whole schema) { e with
      violations := e.violations.removeSchema schema
      cache := e.cache.map fun c => (c.invalidate schema).1 } := by
  obtain ⟨c, cached, kept⟩ := h.kept
  have entries := Cache.get?_invalidate kept.distinct schema
  -- An entry lists only schemas that concern its note, so entries of other notes outlast this.
  have stays : ∀ d ∈ e.notes.notes, ¬ Concerns e.schemaSet d schema → ∀ entry,
      c.notes.get? d.id = some entry → (c.invalidate schema).1.notes.get? d.id = some entry := by
    intro d mem away entry found
    refine (entries d.id entry).2 ⟨found, fun listed => away ?_⟩
    exact kept.admits d mem entry found (fun h => h) schema listed
  refine ⟨h.tidy.removeWhere _, h.filed.removeWhere h.tidy _, (c.invalidate schema).1,
    by rw [cached]; rfl, kept.writable.invalidate schema, ?_, ?_, ?_, ?_, ?_,
    kept.signed.follow rfl rfl (c.sameFrame_invalidate schema)⟩
  · exact fun id entry found sure => kept.dated id entry ((entries id entry).1 found).1 sure
  · intro id entry found sure live
    rw [kept.current id entry ((entries id entry).1 found).1 sure fun h => h]
    dsimp only
    unfold ViolationStore.removeSchema
    rw [h.tidy.ofNote_removeWhere]
    refine (List.filter_eq_self.2 ?_).symm
    intro v held
    obtain ⟨s, mem, named, d, inside, here, accepts⟩ := exact.speaker held
    have other : v.schema ≠ schema := fun same => live ⟨d, inside, here, s, mem, accepts, named.trans same⟩
    simpa using other
  · intro d mem away
    obtain ⟨entry, found⟩ := kept.held d mem trivial
    exact ⟨entry, stays d mem away entry found⟩
  · rintro d mem other ⟨away, lists⟩
    obtain ⟨entry, found, listed⟩ := kept.lists d mem other lists
    exact ⟨entry, stays d mem away entry found, listed⟩
  · intro d mem entry found sure other listed
    obtain ⟨found, unlisted⟩ := (entries d.id entry).1 found
    refine ⟨kept.admits d mem entry found sure other listed, fun whole concerns => ?_⟩
    obtain ⟨_, same, named⟩ := kept.lists d mem schema ⟨whole, concerns⟩
    rw [found] at same
    cases same
    exact (unlisted named).elim

/-- The coverage when a schema was validated again: the notes that it shares with another schema are
whole no more, since their entries list nothing but the schema. -/
def Coverage.revalidated (e : Engine) (whole : String → Prop) (schema : String) : Coverage :=
  { Coverage.part e.schemaSet fun j => whole j ∧ ¬ e.Shared schema j with
    admits := (Coverage.lacking e whole schema).admits }

theorem Keeping.revalidate (h : Keeping (.part e.schemaSet whole) e) (exact : e.Exact) (sound : e.Sound)
    (schema : String) : Leads (revalidate schema) e fun _ after =>
      Keeping (.revalidated e whole schema) after := by
  have lacking := h.lack exact schema
  have keeps : Keeps e { e with
      violations := e.violations.removeSchema schema
      cache := e.cache.map fun c => (c.invalidate schema).1 } := ⟨rfl, rfl, rfl, rfl, rfl, by simp⟩
  unfold Engine.revalidate
  simp only [leads_bind, leads_get, leads_onViolations, leads_onCache]
  cases look : e.schemaSet.find? schema with
  | none =>
    have unknown : ∀ d, ¬ Concerns e.schemaSet d schema := by
      rintro d ⟨s, mem, _, same⟩
      exact List.find?_eq_none.1 look s mem (by simpa using same)
    simp only [leads_pure]
    refine lacking.relax { Coverage.Relaxes.refl _ with behind := ?_, held := ?_, lists := ?_ }
    · rintro j ⟨d, _, _, concerns⟩
      exact unknown d concerns
    · exact fun d _ => unknown d
    · exact fun d other lists => ⟨unknown d, lists.1.1, lists.2⟩
  | some s =>
    have mem : s ∈ e.schemaSet.schemas := List.mem_of_find?_eq_some look
    obtain rfl : s.id = schema := by simpa using List.find?_some look
    have quiet : ∀ id, ∀ v ∈ (e.violations.removeSchema s.id).ofNote id, v.schema ≠ s.id := by
      intro id v held
      unfold ViolationStore.removeSchema at held
      rw [h.tidy.ofNote_removeWhere, List.mem_filter] at held
      simpa using held.2
    have concerns : ∀ d, Concerns e.schemaSet d s.id ↔ s.accepts d = true := by
      refine fun d => ⟨?_, fun accepts => ⟨s, mem, accepts, rfl⟩⟩
      rintro ⟨t, inside, accepts, same⟩
      rwa [← sound.eq_of_id inside mem same]
    dsimp only
    rw [leads_discard]
    refine (lacking.validateSchema (sound.keeps keeps) mem (fun _ h => h)
      (fun d chosen => ⟨(concerns d).2 (mem_chosen.1 chosen).2, fun _ _ => rfl⟩) quiet none).mono ?_
    rintro _ after ⟨more, keeping⟩
    rw [reached, reach_none] at keeping
    have notes : after.notes = e.notes := more.notes
    have picked : ∀ d ∈ e.notes.notes, Concerns e.schemaSet d s.id → d ∈ e.chosen s :=
      fun d inside here => mem_chosen.2 ⟨inside, (concerns d).1 here⟩
    obtain ⟨c, cached, kept⟩ := keeping.kept
    -- The pass has come to every note that the schema concerns, so none of them is behind any more.
    refine ⟨keeping.tidy, keeping.filed, c, cached, kept.writable, kept.dated, ?_, ?_, ?_, kept.admits, ?_⟩
    · refine fun id entry found sure _ => kept.current id entry found sure ?_
      rintro ⟨⟨d, inside, rfl, here⟩, unvisited⟩
      exact unvisited d (picked d inside here) rfl
    · refine fun d inside _ => kept.held d inside ?_
      exact (Classical.em (Concerns e.schemaSet d s.id)).symm.imp_right (picked d (notes ▸ inside))
    · rintro d inside schema ⟨⟨whole, single⟩, here⟩
      refine kept.lists d inside schema ?_
      have inside : d ∈ e.notes.notes := notes ▸ inside
      by_cases both : Concerns e.schemaSet d s.id
      · refine Or.inr ⟨picked d inside both, ?_⟩
        by_contra other
        exact single ⟨d, inside, rfl, both, schema, other, here⟩
      · exact Or.inl ⟨both, whole, here⟩
    · exact kept.signed.relax (fun _ _ => Or.inl) fun _ _ _ => trivial

end VaultSchema.Engine

namespace VaultSchema

def Change.OfNote : Change → Prop
  | .changed _ | .renamed _ _ | .deleted _ => True
  | .revalidated _ | .rescanned _ => False

/-- The notes whose entries list all schemas that apply, after a change. A note that has changed gets
such an entry; a schema that is validated again makes the entries of its notes anew, which then list no
other schema. -/
def Change.whole (e : Engine) (whole : String → Prop) : Change → String → Prop
  | .changed d | .renamed _ d => fun j => whole j ∨ j = d.id
  | .deleted _ | .rescanned _ => whole
  | .revalidated schema => fun j => whole j ∧ ¬ e.Shared schema j

namespace Engine

variable {e : Engine} {whole : String → Prop}

theorem Keeping.step {c : Change} (exact : e.Exact) (keeping : Keeping (.part e.schemaSet whole) e)
    (sound : e.Sound) (allowed : c.Allowed e) (after : (c.settle e).Sound) :
    Leads c.step e fun _ after => Keeping (.part e.schemaSet (c.whole e whole)) after := by
  unfold Change.step
  rw [leads_bind, leads_modify]
  cases c with
  | changed d => exact (keeping.put d).noteChanged after (by simp [Change.notes])
  | renamed old d =>
    have unused := exact.ofNote_eq_nil allowed
    have moved := keeping.rename old unused (e.index.rename old d.id)
    unfold Change.handle noteRenamed
    simp only [leads_bind, leads_onIndex, leads_onViolations, leads_onCache]
    refine moved.noteChanged (after.keeps ⟨rfl, rfl, rfl, rfl, rfl, ?_⟩) (by simp [Change.notes])
    simp [Change.settle]
  | deleted id =>
    unfold Change.handle noteDeleted
    simp only [leads_bind, leads_get, leads_onIndex, leads_onViolations, leads_onCache]
    refine ((keeping.delete id (e.index.remove id)).rescans _).mono ?_
    exact fun _ after both => both.2
  | revalidated id =>
    exact (keeping.revalidate exact sound id).mono fun _ after h => h.relax
      { Coverage.Relaxes.refl _ with admits := fun _ _ admitted => admitted.1 }
  | rescanned s => exact keeping.rescan.mono fun _ after both => both.2

theorem step_settles {c : Change} (settled : e.Settled) (sound : e.Sound) (allowed : c.Allowed e)
    (note : c.OfNote) (after : (c.settle e).Sound) :
    Gives c.step e fun _ after => Keeps (c.settle e) after ∧ after.Settled := by
  have part := settled.keeping.relax (Coverage.full_part e.schemaSet fun _ => True)
  refine ((step_gives settled.exact sound allowed after).and
    (Keeping.step settled.exact part sound allowed after)).mono ?_
  rintro _ now ⟨⟨keeps, exact⟩, keeping⟩
  refine ⟨keeps, exact, ?_⟩
  rw [keeps.schemaSet]
  refine keeping.relax (Coverage.part_full e.schemaSet fun j => ?_)
  cases c with
  | changed d | renamed old d => exact Or.inl trivial
  | deleted id => trivial
  | revalidated id | rescanned s => exact note.elim

theorem steps_settle {cs : List Change} (settled : e.Settled) (sound : e.Sound)
    (notes : ∀ c ∈ cs, c.OfNote) (untroubled : Change.Untroubled e cs) :
    Gives (each Change.step cs) e fun _ after =>
      Keeps (cs.foldl (fun e c => c.settle e) e) after ∧ after.Settled :=
  steps_keep _ (fun settled sound note allowed next => step_settles settled sound allowed note next)
    settled sound notes untroubled

end Engine
end VaultSchema
