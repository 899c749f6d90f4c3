import VaultSchema.Proofs.Cache.Saving
import VaultSchema.Proofs.Engine.Pass
import VaultSchema.Proofs.Number.Equality

/-! The cache beside the violations. An entry is of a note that is there, dated as the note is, and
holds the note's current violations. While violations change, some entries are behind until they are
refreshed, and while notes change, some are stray until they are made anew. -/

set_option autoImplicit false

namespace VaultSchema.Engine

/-- How far the cache is kept: for which paths its entries say nothing or have old violations, which
notes have an entry, which schemas these list at least and at most, and which schemas have a
fingerprint, again at least and at most. -/
structure Coverage where
  stray : String → Prop := fun _ => False
  behind : String → Prop := fun _ => False
  held : Document → Prop
  lists : Document → String → Prop
  admits : Document → String → Prop
  printed : Schema → Prop
  signs : Schema → Prop

def Concerns (set : SchemaSet) (d : Document) (schema : String) : Prop :=
  ∃ s ∈ set.schemas, s.accepts d = true ∧ s.id = schema

def Coverage.full (set : SchemaSet) : Coverage where
  held _ := True
  lists := Concerns set
  admits := Concerns set
  printed s := s ∈ set.schemas ∧ s.enabled = true
  signs _ := True

/-- Every note has an entry. It lists no schema that does not apply, and those of whole notes list all
that do. Enabled schemas have a fingerprint. -/
def Coverage.part (set : SchemaSet) (whole : String → Prop) : Coverage :=
  { Coverage.full set with lists := fun d schema => whole d.id ∧ Concerns set d schema }

/-- A cache is made for the settings in force, and its fingerprints are those of schemas in force, some
of which have one. -/
structure Signed (printed signs : Schema → Prop) (e : Engine) (c : Cache) : Prop where
  settings : c.settings = e.options.fingerprint
  made : c.made = some c.settings
  dirty : c.writer.dirty = true
  distinct : c.hashes.keys.Nodup
  known : ∀ schema digest, c.hashes.get? schema = some digest → ∃ s ∈ e.schemaSet.schemas,
    s.id = schema ∧ signs s ∧ s.fingerprint e.schemaSet.registry = .ok digest
  printed : ∀ s ∈ e.schemaSet.schemas, printed s → ∃ digest, c.hashes.get? s.id = some digest

/-- What a cache holds is right as far as it is kept. -/
structure Kept (k : Coverage) (e : Engine) (c : Cache) : Prop where
  writable : c.Writable
  dated : ∀ id entry, c.notes.get? id = some entry → ¬ k.stray id →
    ∃ d, e.notes.find? id = some d ∧ entry.mtime.equal d.mtime = true
  current : ∀ id entry, c.notes.get? id = some entry → ¬ k.stray id → ¬ k.behind id →
    entry.violations = e.violations.ofNote id
  held : ∀ d ∈ e.notes.notes, k.held d → ∃ entry, c.notes.get? d.id = some entry
  lists : ∀ d ∈ e.notes.notes, ∀ schema, k.lists d schema →
    ∃ entry, c.notes.get? d.id = some entry ∧ schema ∈ entry.schemas
  admits : ∀ d ∈ e.notes.notes, ∀ entry, c.notes.get? d.id = some entry → ¬ k.stray d.id →
    ∀ schema ∈ entry.schemas, k.admits d schema
  signed : Signed k.printed k.signs e c

theorem Kept.distinct {k : Coverage} {e : Engine} {c : Cache} (h : Kept k e c) : c.notes.keys.Nodup := h.writable.notes

structure Keeping (k : Coverage) (e : Engine) : Prop where
  tidy : e.violations.Tidy
  filed : e.violations.Filed
  kept : ∃ c, e.cache = some c ∧ Kept k e c

section coverage

variable {k l : Coverage} {e f : Engine} {c : Cache}

/-- Less is asked of the cache. -/
structure Coverage.Relaxes (k l : Coverage) : Prop where
  stray : ∀ id, k.stray id → l.stray id
  behind : ∀ id, k.behind id → l.behind id
  held : ∀ d, l.held d → k.held d
  lists : ∀ d schema, l.lists d schema → k.lists d schema
  admits : ∀ d schema, k.admits d schema → l.admits d schema
  printed : ∀ s, l.printed s → k.printed s
  signs : ∀ s, k.signs s → l.signs s

theorem Coverage.Relaxes.refl (k : Coverage) : k.Relaxes k :=
  ⟨fun _ h => h, fun _ h => h, fun _ h => h, fun _ _ h => h, fun _ _ h => h, fun _ h => h, fun _ h => h⟩

theorem Coverage.full_part (set : SchemaSet) (whole : String → Prop) :
    (Coverage.full set).Relaxes (.part set whole) :=
  { Coverage.Relaxes.refl (Coverage.full set) with lists := fun _ _ lists => lists.2 }

theorem Coverage.part_full (set : SchemaSet) {whole : String → Prop} (all : ∀ id, whole id) :
    (Coverage.part set whole).Relaxes (.full set) :=
  { Coverage.Relaxes.refl (Coverage.full set) with lists := fun d _ lists => ⟨all d.id, lists⟩ }

theorem Signed.follow {printed signs : Schema → Prop} {after : Cache} (h : Signed printed signs e c)
    (options : f.options = e.options) (schemaSet : f.schemaSet = e.schemaSet)
    (frame : c.SameFrame after) : Signed printed signs f after := by
  refine ⟨?_, ?_, frame.dirty h.dirty, ?_, ?_, ?_⟩
  · rw [frame.settings, h.settings, options]
  · rw [frame.made, frame.settings, h.made]
  · rw [frame.hashes]
    exact h.distinct
  · rw [frame.hashes, schemaSet]
    exact h.known
  · rw [frame.hashes, schemaSet]
    exact h.printed

theorem Signed.relax {p q p' q' : Schema → Prop} (h : Signed p q e c)
    (printed : ∀ s ∈ e.schemaSet.schemas, p' s → p s) (signs : ∀ s ∈ e.schemaSet.schemas, q s → q' s) :
    Signed p' q' e c := by
  refine ⟨h.settings, h.made, h.dirty, h.distinct, ?_, fun s mem has => h.printed s mem (printed s mem has)⟩
  intro schema digest found
  obtain ⟨s, mem, id, signed, prints⟩ := h.known schema digest found
  exact ⟨s, mem, id, signs s mem signed, prints⟩

theorem Kept.relax (h : Kept k e c) (relaxes : k.Relaxes l) : Kept l e c := by
  refine ⟨h.writable, ?_, ?_, ?_, ?_, ?_, ?_⟩
  · exact fun id entry found sure => h.dated id entry found fun s => sure (relaxes.stray id s)
  · exact fun id entry found sure now => h.current id entry found (fun s => sure (relaxes.stray id s))
      fun b => now (relaxes.behind id b)
  · exact fun d mem held => h.held d mem (relaxes.held d held)
  · exact fun d mem schema lists => h.lists d mem schema (relaxes.lists d schema lists)
  · exact fun d mem entry found sure schema listed => relaxes.admits d schema
      (h.admits d mem entry found (fun s => sure (relaxes.stray d.id s)) schema listed)
  · exact h.signed.relax (fun s _ => relaxes.printed s) fun s _ => relaxes.signs s

theorem Keeping.relax (h : Keeping k e) (relaxes : k.Relaxes l) : Keeping l e := by
  obtain ⟨c, cached, kept⟩ := h.kept
  exact ⟨h.tidy, h.filed, c, cached, kept.relax relaxes⟩

theorem Keeping.leave (h : Keeping k e) {behind : String → Prop}
    (more : ∀ id, k.behind id → behind id) : Keeping { k with behind := behind } e :=
  h.relax { Coverage.Relaxes.refl k with behind := more }

theorem Kept.violations (h : Kept k e c) (same : Alike e f) (touched : String → Prop)
    (others : ∀ id, ¬ touched id → f.violations.ofNote id = e.violations.ofNote id) :
    Kept { k with behind := fun id => k.behind id ∨ touched id } f c := by
  refine ⟨h.writable, ?_, ?_, ?_, ?_, ?_, h.signed.follow same.options same.schemaSet (.refl c)⟩
  · simpa only [same.notes] using h.dated
  · intro id entry found sure now
    rw [others id fun t => now (Or.inr t)]
    exact h.current id entry found sure fun b => now (Or.inl b)
  · simpa only [same.notes] using h.held
  · simpa only [same.notes] using h.lists
  · simpa only [same.notes] using h.admits

theorem Keeping.violations (h : Keeping k e) {v : ViolationStore} (tidy : v.Tidy) (filed : v.Filed)
    (touched : String → Prop)
    (others : ∀ id, ¬ touched id → v.ofNote id = e.violations.ofNote id) :
    Keeping { k with behind := fun id => k.behind id ∨ touched id } { e with violations := v } := by
  obtain ⟨c, cached, kept⟩ := h.kept
  exact ⟨tidy, filed, c, cached, kept.violations (f := { e with violations := v }) ⟨rfl, rfl, rfl⟩
    touched others⟩

theorem Keeping.congr (h : Keeping k e) (same : Alike e f) (cache : f.cache = e.cache)
    (rows : f.violations.byNote = e.violations.byNote) : Keeping k f := by
  obtain ⟨c, cached, kept⟩ := h.kept
  refine ⟨h.tidy.congr rows, h.filed.congr rows, c, cache.trans cached, ?_⟩
  refine (kept.violations same (fun _ => False)
    fun id _ => ViolationStore.ofNote_congr rows id).relax { Coverage.Relaxes.refl _ with behind := ?_ }
  exact fun id behind => behind.elim (fun h => h) False.elim

theorem Keeping.refresh (h : Keeping k e) (id : String) :
    Keeping { k with behind := fun j => k.behind j ∧ j ≠ id } { e with
      cache := e.cache.map fun c => c.updateViolations id (e.violations.ofNote id) } := by
  obtain ⟨c, cached, kept⟩ := h.kept
  refine ⟨h.tidy, h.filed, _, by rw [cached]; rfl, ?_⟩
  have entries : ∀ j entry, (c.updateViolations id (e.violations.ofNote id)).notes.get? j = some entry →
      ∃ old, c.notes.get? j = some old ∧ entry.mtime = old.mtime ∧ entry.schemas = old.schemas ∧
        entry.violations = if j = id then e.violations.ofNote id else old.violations := by
    intro j entry found
    rw [Cache.get?_updateViolations] at found
    split at found
    · rename_i here
      subst here
      obtain ⟨old, there, rfl⟩ := Option.map_eq_some_iff.1 found
      exact ⟨old, there, rfl, rfl, by simp⟩
    · rename_i other
      exact ⟨entry, found, rfl, rfl, by rw [if_neg (Ne.symm other)]⟩
  have remains : ∀ j old, c.notes.get? j = some old → ∃ entry,
      (c.updateViolations id (e.violations.ofNote id)).notes.get? j = some entry ∧
        entry.schemas = old.schemas := by
    intro j old found
    rw [Cache.get?_updateViolations]
    split
    · rename_i here
      subst here
      exact ⟨old.withViolations (e.violations.ofNote id), by rw [found]; rfl, rfl⟩
    · exact ⟨old, found, rfl⟩
  refine ⟨kept.writable.updateViolations _ _, ?_, ?_, ?_, ?_, ?_,
    kept.signed.follow rfl rfl (c.sameFrame_updateViolations _ _)⟩
  · intro j entry found sure
    obtain ⟨old, there, mtime, _⟩ := entries j entry found
    rw [mtime]
    exact kept.dated j old there sure
  · intro j entry found sure now
    obtain ⟨old, there, _, _, violations⟩ := entries j entry found
    rw [violations]
    split
    · rename_i here
      rw [here]
    · rename_i other
      exact kept.current j old there sure fun b => now ⟨b, other⟩
  · intro d mem held
    obtain ⟨old, there⟩ := kept.held d mem held
    obtain ⟨entry, found, _⟩ := remains d.id old there
    exact ⟨entry, found⟩
  · intro d mem schema lists
    obtain ⟨old, there, listed⟩ := kept.lists d mem schema lists
    obtain ⟨entry, found, schemas⟩ := remains d.id old there
    exact ⟨entry, found, schemas ▸ listed⟩
  · intro d mem entry found sure
    obtain ⟨old, there, _, schemas, _⟩ := entries d.id entry found
    rw [schemas]
    exact kept.admits d mem old there sure

theorem Keeping.enter (h : Keeping k e) (distinct : e.notes.Distinct) {d : Document}
    (mem : d ∈ e.notes.notes) (names : Cache → List String) {listed : String → Prop}
    (all : ∀ c, Kept k e c → ∀ schema, listed schema → schema ∈ names c)
    (only : ∀ c, Kept k e c → ∀ schema ∈ names c, k.admits d schema) :
    Keeping
      { k with
        stray := fun j => k.stray j ∧ j ≠ d.id
        behind := fun j => k.behind j ∧ j ≠ d.id
        held := fun b => k.held b ∨ b = d
        lists := fun b schema => b = d ∧ listed schema ∨ b ≠ d ∧ k.lists b schema }
      { e with cache :=
        e.cache.map fun c => c.update d.id d.mtime (names c) (e.violations.ofNote d.id) } := by
  obtain ⟨c, cached, kept⟩ := h.kept
  refine ⟨h.tidy, h.filed, _, by rw [cached]; rfl, ?_⟩
  have entries := c.get?_update d.id d.mtime (names c) (e.violations.ofNote d.id)
  have apart : ∀ b ∈ e.notes.notes, b ≠ d → d.id ≠ b.id := fun b inside other same =>
    other (NoteStore.eq_of_id_eq distinct inside mem same.symm)
  refine ⟨kept.writable.update _ d.held_mtime _ _, ?_, ?_, ?_, ?_, ?_,
    kept.signed.follow rfl rfl (c.sameFrame_update _ _ _ _)⟩
  · intro j entry found sure
    rw [entries] at found
    split at found
    · rename_i here
      subst here
      cases found
      exact ⟨d, (NoteStore.has_iff distinct).2 mem, d.mtime_equal_self⟩
    · rename_i other
      exact kept.dated j entry found fun stray => sure ⟨stray, Ne.symm other⟩
  · intro j entry found sure now
    rw [entries] at found
    split at found
    · rename_i here
      subst here
      cases found
      exact CachedNote.violations_ofViolations ..
    · rename_i other
      exact kept.current j entry found (fun stray => sure ⟨stray, Ne.symm other⟩)
        fun behind => now ⟨behind, Ne.symm other⟩
  · intro b inside held
    rw [entries]
    split
    · exact ⟨_, rfl⟩
    · rename_i other
      rcases held with held | rfl
      · exact kept.held b inside held
      · exact (other rfl).elim
  · intro b inside schema lists
    rw [entries]
    rcases lists with ⟨rfl, named⟩ | ⟨other, lists⟩
    · exact ⟨_, if_pos rfl, by simpa using all c kept schema named⟩
    · rw [if_neg (apart b inside other)]
      exact kept.lists b inside schema lists
  · intro b inside entry found sure schema mentioned
    rw [entries] at found
    split at found
    · rename_i here
      cases found
      rw [NoteStore.eq_of_id_eq distinct inside mem here.symm]
      exact only c kept schema (by simpa using mentioned)
    · rename_i other
      exact kept.admits b inside entry found (fun stray => sure ⟨stray, Ne.symm other⟩) schema mentioned

end coverage

end VaultSchema.Engine
