import VaultSchema.Cache.Basic
import VaultSchema.Proofs.Note.Store
import VaultSchema.Proofs.Outcome
import VaultSchema.Proofs.Table
import VaultSchema.Proofs.Text.Order

/-! What the analysis of a cache keeps and what it has validated anew. An entry is kept when its
note is there and unchanged and no schema that it lists is stale; a schema is stale unless it had
the same fingerprint before. -/

set_option autoImplicit false

namespace VaultSchema.Cache

variable {c : Cache} {set : SchemaSet}

def Prints (set : SchemaSet) (hashes : Table String String) : Prop :=
  List.Forall₂ (fun (s : Schema) (r : String × String) => s.id = r.1 ∧ s.fingerprint set.registry = .ok r.2)
    set.schemas hashes.rows

namespace Prints

variable {hashes : Table String String}

theorem keys (h : Prints set hashes) : hashes.keys = set.schemas.map (·.id) := by
  unfold Prints at h
  unfold Table.keys
  generalize set.schemas = schemas at h
  generalize hashes.rows = rows at h
  induction h with
  | nil => rfl
  | cons head _ ih => rw [List.map_cons, List.map_cons, ih, head.1]

theorem nodup (h : Prints set hashes) (distinct : (set.schemas.map (·.id)).Nodup) : hashes.keys.Nodup := by
  rw [h.keys]
  exact distinct

theorem all (h : Prints set hashes) {s : Schema} (mem : s ∈ set.schemas) :
    ∃ digest, s.fingerprint set.registry = .ok digest := by
  obtain ⟨r, _, _, printed⟩ := Outcome.partner_right h mem
  exact ⟨r.2, printed⟩

theorem get?_eq_some (h : Prints set hashes) (distinct : (set.schemas.map (·.id)).Nodup) {id digest : String} :
    hashes.get? id = some digest ↔
      ∃ s ∈ set.schemas, s.id = id ∧ s.fingerprint set.registry = .ok digest := by
  rw [← Table.mem_rows (h.nodup distinct)]
  constructor
  · intro mem
    obtain ⟨s, inside, id, prints⟩ := Outcome.partner_left h mem
    exact ⟨s, inside, id, prints⟩
  · rintro ⟨s, inside, rfl, prints⟩
    obtain ⟨⟨key, digest'⟩, mem, id, prints'⟩ := Outcome.partner_right h inside
    rw [prints] at prints'
    cases prints'
    cases id
    exact mem

theorem get?_eq_none (h : Prints set hashes) {id : String} :
    hashes.get? id = none ↔ ∀ s ∈ set.schemas, s.id ≠ id := by
  rw [← Option.not_isSome_iff_eq_none, ← Table.mem_keys, h.keys, List.mem_map]
  simp

theorem changed_iff (h : Prints set hashes) (distinct : (set.schemas.map (·.id)).Nodup)
    {old : Table String String} {id : String} :
    (∃ digest, hashes.get? id = some digest ∧ old.get? id ≠ some digest) ↔
      ∃ s ∈ set.schemas, s.id = id ∧ ∀ digest, s.fingerprint set.registry = .ok digest →
        old.get? id ≠ some digest := by
  constructor
  · rintro ⟨digest, printed, differs⟩
    obtain ⟨s, mem, rfl, once⟩ := (h.get?_eq_some distinct).1 printed
    refine ⟨s, mem, rfl, fun other twice same => differs ?_⟩
    rw [once] at twice
    cases twice
    exact same
  · rintro ⟨s, mem, rfl, differs⟩
    obtain ⟨digest, once⟩ := h.all mem
    exact ⟨digest, (h.get?_eq_some distinct).2 ⟨s, mem, rfl, once⟩, differs digest once⟩

end Prints

theorem prints_of_currentHashes {hashes : Table String String} (distinct : (set.schemas.map (·.id)).Nodup)
    (current : currentHashes set = .ok hashes) : Prints set hashes := by
  obtain ⟨rows, printed, made⟩ := Outcome.bind_eq_ok.1 current
  rw [Outcome.mapM_eq_ok_iff] at printed
  have rowwise : Prints set ⟨rows⟩ := by
    refine printed.imp fun s r prints => ?_
    obtain ⟨digest, printed, same⟩ := Outcome.bind_eq_ok.1 prints
    cases same
    exact ⟨rfl, printed⟩
  have keys : (rows.map Prod.fst).Nodup := rowwise.nodup distinct
  rw [Table.foldl_put keys (by simp [Table.keys])] at made
  cases made
  exact rowwise

theorem exists_currentHashes (printed : ∀ s ∈ set.schemas, ∃ digest, s.fingerprint set.registry = .ok digest) :
    ∃ hashes, currentHashes set = .ok hashes := by
  obtain ⟨rows, all⟩ := Outcome.exists_mapM (l := set.schemas)
    (f := fun s => do return (s.id, ← s.fingerprint set.registry)) <| by
      intro s mem
      obtain ⟨digest, prints⟩ := printed s mem
      exact ⟨(s.id, digest), by rw [prints]; rfl⟩
  exact ⟨_, Outcome.bind_eq_ok.2 ⟨rows, all, rfl⟩⟩

theorem exists_analyze (made : c.made = some c.settings)
    (printed : ∀ s ∈ set.schemas, ∃ digest, s.fingerprint set.registry = .ok digest) (notes : List Document) :
    ∃ after a, c.analyze set notes = .ok (after, a) := by
  obtain ⟨hashes, current⟩ := exists_currentHashes printed
  unfold analyze
  rw [if_neg (by simp [made]), current]
  exact ⟨_, _, rfl⟩

theorem mem_staleSchemas {old new : Table String String} (distinct : new.keys.Nodup) {id : String} :
    id ∈ staleSchemas old new ↔ (∃ digest, new.get? id = some digest ∧ old.get? id ≠ some digest) ∨
      (old.get? id).isSome ∧ new.get? id = none := by
  unfold staleSchemas Table.has
  rw [List.mem_append, List.mem_map, List.mem_filter, Table.mem_keys]
  refine or_congr ?_ (and_congr_right fun _ => by cases new.get? id <;> simp)
  constructor
  · rintro ⟨⟨key, digest⟩, mem, rfl⟩
    rw [List.mem_filter, Table.mem_rows distinct] at mem
    exact ⟨digest, mem.1, by simpa using mem.2⟩
  · rintro ⟨digest, found, differs⟩
    exact ⟨(id, digest), List.mem_filter.2 ⟨(Table.mem_rows distinct).2 found, by simpa using differs⟩, rfl⟩

theorem nodup_staleSchemas {old new : Table String String} (before : old.keys.Nodup)
    (now : new.keys.Nodup) : (staleSchemas old new).Nodup := by
  refine List.nodup_append.2 ⟨?_, before.filter _, ?_⟩
  · exact List.Nodup.sublist (List.filter_sublist.map Prod.fst) now
  · rintro id changed _ gone rfl
    obtain ⟨r, mem, rfl⟩ := List.mem_map.1 changed
    have there := (List.mem_filter.1 gone).2
    rw [Table.has, (Table.mem_rows now).1 (List.mem_of_mem_filter mem)] at there
    cases there

/-- Of the notes under one path the last one counts; here there is one at most. -/
theorem noteOf?_eq_some_iff {notes : List Document} (distinct : (notes.map (·.id)).Nodup) {id : String}
    {d : Document} : noteOf? notes id = some d ↔ d ∈ notes ∧ d.id = id := by
  unfold noteOf?
  constructor
  · intro found
    exact ⟨List.mem_reverse.1 (List.mem_of_find?_eq_some found), by simpa using List.find?_some found⟩
  · rintro ⟨mem, rfl⟩
    cases found : notes.reverse.find? (·.id == d.id) with
    | none => simpa using List.find?_eq_none.1 found d (List.mem_reverse.2 mem)
    | some other =>
      have there := List.mem_reverse.1 (List.mem_of_find?_eq_some found)
      have same : other.id = d.id := by simpa using List.find?_some found
      rw [List.inj_on_of_nodup_map distinct there mem same]

theorem holdsOn_iff {stale : List String} {notes : List Document} (distinct : (notes.map (·.id)).Nodup)
    {id : String} {entry : CachedNote} : holdsOn stale notes id entry = true ↔
      ∃ d ∈ notes, d.id = id ∧ d.mtime.equal entry.mtime = true ∧ ∀ schema ∈ entry.schemas, schema ∉ stale := by
  have found : holdsOn stale notes id entry = true ↔ ∃ d, noteOf? notes id = some d ∧
      d.mtime.equal entry.mtime = true ∧ ∀ schema ∈ entry.schemas, schema ∉ stale := by
    unfold holdsOn
    cases noteOf? notes id <;> simp
  simp only [found, noteOf?_eq_some_iff distinct, and_assoc]

/-- What an analysis makes of a cache whose settings are still in force. -/
structure Parted (set : SchemaSet) (ds : List Document) (c after : Cache) (a : Analysis) : Prop where
  full : a.full = false
  settings : after.settings = c.settings
  made : after.made = c.made
  dirty : after.writer.dirty = true
  hashes : Prints set after.hashes
  stale : ∀ id, id ∈ a.schemas ↔
    (∃ s ∈ set.schemas, s.id = id ∧ ∀ digest, s.fingerprint set.registry = .ok digest →
      c.hashes.get? id ≠ some digest) ∨
    id ∈ c.hashes.keys ∧ ∀ s ∈ set.schemas, s.id ≠ id
  kept : ∀ r, r ∈ after.notes.rows ↔ r ∈ c.notes.rows ∧ ∃ d ∈ ds, d.id = r.1 ∧
    d.mtime.equal r.2.mtime = true ∧ ∀ schema ∈ r.2.schemas, schema ∉ a.schemas
  order : after.notes.rows.Sublist c.notes.rows
  notes : ∀ id, id ∈ a.notes ↔ (∃ d ∈ ds, d.id = id) ∧ id ∉ after.notes.keys
  removed : ∀ id, id ∈ a.removed ↔ id ∈ c.notes.keys ∧ ∀ d ∈ ds, d.id ≠ id
  notesOnce : a.notes.Nodup
  schemasOnce : c.hashes.keys.Nodup → a.schemas.Nodup
  removedOnce : c.notes.keys.Nodup → a.removed.Nodup

theorem parted {ds : List Document} (distinct : (ds.map (·.id)).Nodup)
    (schemas : (set.schemas.map (·.id)).Nodup) {after : Cache} {a : Analysis} (made : c.made = some c.settings)
    (found : c.analyze set ds = .ok (after, a)) : Parted set ds c after a := by
  unfold analyze at found
  rw [if_neg (by simp [made])] at found
  obtain ⟨now, current, found⟩ := Outcome.bind_eq_ok.1 found
  cases found
  have prints := prints_of_currentHashes schemas current
  have ids : ∀ id, id ∈ Text.distinct (ds.map (·.id)) ↔ ∃ d ∈ ds, d.id = id := by
    intro id
    rw [Text.mem_distinct, List.mem_map]
  refine ⟨rfl, rfl, rfl, rfl, prints, ?_, ?_, List.filter_sublist, ?_, ?_, ?_, ?_, ?_⟩
  · intro id
    rw [Text.mem_sorted, mem_staleSchemas (prints.nodup schemas), prints.changed_iff schemas, prints.get?_eq_none,
      Table.mem_keys]
  · intro r
    simp only [changed, Table.keep, List.mem_filter, holdsOn_iff distinct, Text.mem_sorted]
  · intro id
    rw [Text.mem_sorted, List.mem_filter, ids, Table.has, Bool.not_eq_true', ← Bool.not_eq_true, ← Table.mem_keys]
    rfl
  · intro id
    rw [Text.mem_sorted, List.mem_filter, Bool.not_eq_true', ← Bool.not_eq_true, List.contains_iff_mem, ids]
    simp
  · exact (Text.sorted_perm _).nodup_iff.2 ((Text.nodup_distinct _).filter _)
  · exact fun before => (Text.sorted_perm _).nodup_iff.2 (nodup_staleSchemas before (prints.nodup schemas))
  · exact fun rows => (Text.sorted_perm _).nodup_iff.2 (rows.filter _)

/-- What an analysis finds that does not demand a full pass. -/
structure Analyzed (set : SchemaSet) (s : NoteStore) (c after : Cache) (a : Analysis) : Prop where
  full : a.full = false
  settings : after.settings = c.settings
  made : after.made = c.made
  dirty : after.writer.dirty = true
  printed : ∀ id digest, after.hashes.get? id = some digest ↔
    ∃ s ∈ set.schemas, s.id = id ∧ s.fingerprint set.registry = .ok digest
  all : ∀ s ∈ set.schemas, ∃ digest, s.fingerprint set.registry = .ok digest
  hashes : after.hashes.keys.Nodup
  distinct : after.notes.keys.Nodup
  kept : ∀ id entry, after.notes.get? id = some entry ↔ c.notes.get? id = some entry ∧
    ∃ d, s.find? id = some d ∧ d.mtime.equal entry.mtime = true ∧
      ∀ schema ∈ entry.schemas, schema ∉ a.schemas
  notes : ∀ id, id ∈ a.notes ↔ (∃ d, s.find? id = some d) ∧ after.notes.get? id = none
  removed : ∀ id, id ∈ a.removed ↔ (∃ entry, c.notes.get? id = some entry) ∧ s.find? id = none
  stale : ∀ id, id ∈ a.schemas ↔
    (∃ digest, after.hashes.get? id = some digest ∧ c.hashes.get? id ≠ some digest) ∨
      (c.hashes.get? id).isSome ∧ after.hashes.get? id = none
  once : a.schemas.Nodup

theorem analyzed {notes : NoteStore} (distinct : notes.Distinct)
    (schemas : (set.schemas.map (·.id)).Nodup) (rows : c.notes.keys.Nodup) (hashes : c.hashes.keys.Nodup)
    {after : Cache} {a : Analysis} (made : c.made = some c.settings)
    (found : c.analyze set notes.listed = .ok (after, a)) : Analyzed set notes c after a := by
  have ids : (notes.listed.map (·.id)).Nodup :=
    ((NoteStore.listed_perm notes).map (fun d : Document => d.id)).nodup_iff.2 distinct
  have parts := parted ids schemas made found
  have fresh := parts.hashes.nodup schemas
  have kept : after.notes.keys.Nodup := List.Nodup.sublist (parts.order.map Prod.fst) rows
  have there : ∀ {p : Document → Prop} id, (∃ d ∈ notes.listed, d.id = id ∧ p d) ↔
      ∃ d, notes.find? id = some d ∧ p d := by
    simp only [NoteStore.find?_eq_some_iff distinct, NoteStore.mem_listed, and_assoc, implies_true]
  refine ⟨parts.full, parts.settings, parts.made, parts.dirty,
    fun id digest => parts.hashes.get?_eq_some schemas, fun s mem => parts.hashes.all mem, fresh, kept,
    ?_, ?_, ?_, ?_, parts.schemasOnce hashes⟩
  · intro id entry
    rw [← Table.mem_rows kept, ← Table.mem_rows rows, parts.kept, there]
  · intro id
    have present := there (p := fun _ => True) id
    simp only [and_true] at present
    rw [parts.notes, present, Table.mem_keys, Option.not_isSome_iff_eq_none]
  · intro id
    rw [parts.removed, Table.mem_keys, Option.isSome_iff_exists, NoteStore.find?_eq_none_iff]
    simp only [NoteStore.mem_listed, ne_eq]
  · intro id
    rw [parts.stale, parts.hashes.changed_iff schemas, parts.hashes.get?_eq_none, Table.mem_keys]

theorem Analyzed.unchanged {s : NoteStore} {after : Cache} {a : Analysis} (h : Analyzed set s c after a)
    (entries : ∀ d ∈ s.notes, ∃ entry, after.notes.get? d.id = some entry) : a.notes = [] := by
  rw [List.eq_nil_iff_forall_not_mem]
  intro id changed
  obtain ⟨⟨d, here⟩, missing⟩ := (h.notes id).1 changed
  obtain ⟨entry, there⟩ := entries d (NoteStore.mem_of_find? here)
  rw [NoteStore.id_of_find? here, missing] at there
  cases there

theorem Analyzed.complete {s : NoteStore} {after : Cache} {a : Analysis} (h : Analyzed set s c after a)
    (there : ∀ id entry, c.notes.get? id = some entry → ∃ d, s.find? id = some d) : a.removed = [] := by
  rw [List.eq_nil_iff_forall_not_mem]
  intro id gone
  obtain ⟨⟨entry, before⟩, gone⟩ := (h.removed id).1 gone
  obtain ⟨d, here⟩ := there id entry before
  rw [gone] at here
  cases here

end VaultSchema.Cache
