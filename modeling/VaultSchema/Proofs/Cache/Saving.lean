import VaultSchema.Proofs.Blob.Saving
import VaultSchema.Proofs.Cache.Entries
import VaultSchema.Proofs.Cache.Loading

/-! Series of operations on a cache together with its blob, in which reading and writing may fail at
any time. A cache that was never loaded and has never changed need not agree with its blob: so the
series is looked at from the first load or change on. -/

set_option autoImplicit false

namespace VaultSchema

/-- What may be done to a cache that is kept in a blob; flags tell whether reading or writing fails. -/
inductive CacheWork where
  | loaded (unread : Bool)
  | analyzed (set : SchemaSet) (notes : List Document)
  | updated (id : String) (mtime : Binary64) (held : mtime.Held) (schemas : List String)
    (violations : List Violation)
  | schemaAdded (id : String) (mtime : Binary64) (held : mtime.Held) (schema : String)
    (violations : List Violation)
  | violationsUpdated (id : String) (violations : List Violation)
  | removed (id : String)
  | renamed (old new : String)
  | invalidated (schema : String)
  | hashUpdated (s : Schema) (r : Registry)
  | cleared
  | saved (unwritten : Bool)
  | flushed (unwritten : Bool)
  | expired (unwritten : Bool)

namespace CacheWork

def orSame {α : Type} (c : Cache) (b : BlobStore) (get : α → Cache) : Except ValueFault α → Saved Cache
  | .ok a => ⟨get a, b, none⟩
  | .error f => ⟨c, b, some f⟩

def act (c : Cache) (b : BlobStore) : CacheWork → Saved Cache
  | loaded unread => orSame c b Prod.fst (c.load (b.whenFailing unread))
  | analyzed set notes => orSame c b Prod.fst (c.analyze set notes)
  | updated id mtime _ schemas violations => ⟨c.update id mtime schemas violations, b, none⟩
  | schemaAdded id mtime _ schema violations => ⟨c.addSchema id mtime schema violations, b, none⟩
  | violationsUpdated id violations => ⟨c.updateViolations id violations, b, none⟩
  | removed id => ⟨c.remove id, b, none⟩
  | renamed old new => ⟨c.rename old new, b, none⟩
  | invalidated schema => ⟨(c.invalidate schema).1, b, none⟩
  | hashUpdated s r => orSame c b (fun c => c) (c.updateHash s r)
  | cleared => ⟨c.clear, b, none⟩
  | saved unwritten => c.save (b.whenFailing unwritten)
  | flushed unwritten => c.flush (b.whenFailing unwritten)
  | expired unwritten => c.expire (b.whenFailing unwritten)

def run (work : List CacheWork) (s : Saved Cache) : Saved Cache :=
  work.foldl (fun s w => w.act s.value s.blobs) s

end CacheWork

namespace Cache

variable {c : Cache} {b : BlobStore} {awake : Prop}

/-- A text holds the entries and the fingerprints of a cache. -/
def Holds (c : Cache) (text : String) : Prop :=
  ∃ v made, Json.read? text = some v ∧
    ∀ into : Cache, into.takeOver v = .ok { into with made := made, hashes := c.hashes, notes := c.notes }

theorem Writable.exists_holding (h : c.Writable) : ∃ text, c.toText = .ok text ∧ c.Holds text := by
  obtain ⟨text, written⟩ := h.exists_toText
  exact ⟨text, written, c.toValue, some c.settings, Json.read?_write Json.loose_spaced h.plain written,
    fun into => takeOver_toValue into c⟩

theorem takeOver_any {v : Value} {y : Cache} (taken : c.takeOver v = .ok y) (into : Cache) :
    into.takeOver v = .ok { into with made := y.made, hashes := y.hashes, notes := y.notes } := by
  obtain ⟨m, made, hashes, notes, same, told, rfl⟩ := takeOver_eq_ok.1 taken
  exact takeOver_eq_ok.2 ⟨m, made, hashes, notes, same, told, rfl⟩

theorem load_cases {y : Cache} {read : Bool} (loads : c.load b = .ok (y, read)) :
    (read = false ∧ y = c) ∨ read = true ∧ ∃ text v, b.text? blobName = some text ∧ Json.read? text = some v ∧
      c.takeOver v = .ok y := by
  unfold load at loads
  split at loads
  · cases loads
    exact Or.inl ⟨rfl, rfl⟩
  · cases loads
    exact Or.inl ⟨rfl, rfl⟩
  · cases loads
  · rename_i text found
    split at loads
    · rename_i z taken
      cases loads
      cases parsed : Json.read? text with
      | none =>
        rw [parsed] at taken
        cases taken
      | some v =>
        rw [parsed] at taken
        exact Or.inr ⟨rfl, text, v, BlobStore.text?_of_read found, parsed, taken⟩
    · cases loads
      exact Or.inl ⟨rfl, rfl⟩
    · cases loads
    · cases loads
      exact Or.inl ⟨rfl, rfl⟩

theorem load_settings {y : Cache} {read : Bool} (loads : c.load b = .ok (y, read)) : y.settings = c.settings := by
  rcases load_cases loads with ⟨_, rfl⟩ | ⟨_, _, _, _, _, taken⟩
  · rfl
  · obtain ⟨_, _, _, _, _, _, rfl⟩ := takeOver_eq_ok.1 taken
    rfl

/-- A cache that can be written and, once awake, is written when nothing is unsaved. -/
structure Kept (awake : Prop) (c : Cache) (b : BlobStore) : Prop where
  writable : c.Writable
  settled : awake → c.writer.Settled c.Holds blobName b

theorem load_kept {y : Cache} {unread : Bool} (loads : c.load (b.whenFailing unread) = .ok (y, true)) :
    Kept awake y b := by
  rcases load_cases loads with ⟨failed, _⟩ | ⟨_, text, v, there, read, taken⟩
  · cases failed
  · exact ⟨takeOver_writable (Json.plain_read? read) taken,
      fun _ _ => ⟨text, there, v, y.made, read, takeOver_any taken⟩⟩

theorem Writable.kept (h : c.Writable) (unsaved : c.writer.dirty = true) : Kept awake c b :=
  ⟨h, fun _ clean => by rw [unsaved] at clean; cases clean⟩

theorem Kept.changes (h : Kept awake c b) {d : Cache} (writable : d.Writable)
    (quiet : d = c ∨ d.writer.dirty = true) : Kept awake d b := by
  rcases quiet with rfl | unsaved
  · exact h
  · exact writable.kept unsaved

theorem updateViolations_quiet (c : Cache) (id : String) (vs : List Violation) :
    c.updateViolations id vs = c ∨ (c.updateViolations id vs).writer.dirty = true := by
  unfold updateViolations
  split
  · exact Or.inl rfl
  · exact Or.inr rfl

theorem remove_quiet (c : Cache) (id : String) : c.remove id = c ∨ (c.remove id).writer.dirty = true := by
  unfold remove
  split
  · exact Or.inr rfl
  · exact Or.inl rfl

theorem rename_quiet (c : Cache) (old new : String) :
    c.rename old new = c ∨ (c.rename old new).writer.dirty = true := by
  unfold rename
  split
  · exact Or.inl rfl
  · exact Or.inr rfl

theorem invalidate_quiet (c : Cache) (schema : String) :
    (c.invalidate schema).1 = c ∨ (c.invalidate schema).1.writer.dirty = true := by
  unfold invalidate
  dsimp only
  split
  · exact Or.inl rfl
  · exact Or.inr rfl

theorem Writable.of_notes (h : c.Writable) {d : Cache} (hashes : d.hashes = c.hashes) (distinct : d.notes.keys.Nodup)
    (plain : ∀ id e, d.notes.get? id = some e → e.Plain) : d.Writable :=
  ⟨distinct, hashes ▸ h.hashes, fun r mem => plain r.1 r.2 ((Table.mem_rows distinct).1 mem)⟩

theorem Writable.entry (h : c.Writable) {id : String} {e : CachedNote} (found : c.notes.get? id = some e) :
    e.Plain := h.entries (id, e) (Table.mem_rows_of_get? found)

theorem Writable.update (h : c.Writable) (id : String) {mtime : Binary64} (held : mtime.Held) (schemas : List String)
    (vs : List Violation) : (c.update id mtime schemas vs).Writable := by
  refine h.of_notes rfl (nodup_update h.notes ..) fun j e found => ?_
  rw [get?_update] at found
  split at found
  · cases found
    exact CachedNote.plain_ofViolations vs held _
  · exact h.entry found

theorem Writable.updateViolations (h : c.Writable) (id : String) (vs : List Violation) :
    (c.updateViolations id vs).Writable := by
  refine h.of_notes (sameFrame_updateViolations ..).hashes (nodup_updateViolations h.notes ..) fun j e found => ?_
  rw [get?_updateViolations] at found
  split at found
  · obtain ⟨old, there, rfl⟩ := Option.map_eq_some_iff.1 found
    exact (h.entry (e := old) there).withViolations vs
  · exact h.entry found

theorem Writable.remove (h : c.Writable) (id : String) : (c.remove id).Writable := by
  refine h.of_notes (sameFrame_remove ..).hashes (nodup_remove h.notes id) fun j e found => ?_
  rw [get?_remove] at found
  split at found
  · cases found
  · exact h.entry found

theorem Writable.rename (h : c.Writable) (old new : String) : (c.rename old new).Writable := by
  refine h.of_notes (sameFrame_rename ..).hashes (nodup_rename h.notes old new) fun j e found => ?_
  unfold Cache.rename at found
  cases entry : c.notes.get? old with
  | none =>
    rw [entry] at found
    exact h.entry found
  | some moved =>
    rw [entry] at found
    dsimp only [changed] at found
    rw [Table.get?_put] at found
    split at found
    · cases found
      exact (h.entry (e := moved) entry).renamed new
    · rw [Table.get?_drop] at found
      split at found
      · cases found
      · exact h.entry found

theorem Writable.invalidate (h : c.Writable) (schema : String) : (c.invalidate schema).1.Writable :=
  h.of_notes (sameFrame_invalidate ..).hashes (nodup_invalidate h.notes schema) fun _ _ found =>
    h.entry ((get?_invalidate h.notes schema _ _).1 found).1

theorem writable_clear (c : Cache) : c.clear.Writable := ⟨List.nodup_nil, List.nodup_nil, by simp [clear, changed]⟩

theorem Writable.putHash (h : c.Writable) (schema digest : String) :
    (changed { c with hashes := c.hashes.put schema digest }).Writable :=
  ⟨h.notes, Table.nodup_put h.hashes _ _, h.entries⟩

theorem Writable.analyze (h : c.Writable) {set : SchemaSet} {notes : List Document} {d : Cache} {a : Analysis}
    (found : c.analyze set notes = .ok (d, a)) : d.Writable ∧ d.writer.dirty = true := by
  unfold Cache.analyze at found
  split at found
  · cases found
    exact ⟨writable_clear c, rfl⟩
  · obtain ⟨hashes, current, found⟩ := Outcome.bind_eq_ok.1 found
    cases found
    obtain ⟨rows, _, made⟩ := Outcome.bind_eq_ok.1 current
    cases made
    have put : (rows.foldl (fun t r => t.put r.1 r.2) ({} : Table String String)).keys.Nodup :=
      List.foldlRecOn (motive := fun t : Table String String => t.keys.Nodup) rows _ List.nodup_nil
        fun _ h r _ => Table.nodup_put h r.1 r.2
    refine ⟨⟨Table.nodup_keep h.notes _, put, fun r mem => ?_⟩, rfl⟩
    exact h.entries r (List.mem_of_mem_filter mem)

theorem Kept.save (h : Kept awake c b) (unwritten : Bool) :
    Kept awake (c.save (b.whenFailing unwritten)).value (c.save (b.whenFailing unwritten)).blobs := by
  obtain ⟨text, written, holds⟩ := h.writable.exists_holding
  unfold Cache.save
  rw [written]
  exact ⟨⟨h.writable.notes, h.writable.hashes, h.writable.entries⟩, fun _ => Writer.settled_save holds _ _⟩

theorem Kept.flush (h : Kept awake c b) (unwritten : Bool) :
    Kept awake (c.flush (b.whenFailing unwritten)).value (c.flush (b.whenFailing unwritten)).blobs := by
  obtain ⟨text, written, holds⟩ := h.writable.exists_holding
  unfold Cache.flush
  rw [written]
  exact ⟨⟨h.writable.notes, h.writable.hashes, h.writable.entries⟩, fun up => Writer.settled_flush holds (h.settled up)⟩

theorem Kept.expire (h : Kept awake c b) (unwritten : Bool) :
    Kept awake (c.expire (b.whenFailing unwritten)).value (c.expire (b.whenFailing unwritten)).blobs := by
  obtain ⟨text, written, holds⟩ := h.writable.exists_holding
  unfold Cache.expire
  rw [written]
  exact ⟨⟨h.writable.notes, h.writable.hashes, h.writable.entries⟩, fun up => Writer.settled_expire holds (h.settled up)⟩

theorem Kept.act (h : Kept awake c b) (w : CacheWork) : Kept awake (w.act c b).value (w.act c b).blobs := by
  have writable := h.writable
  cases w with
  | loaded unread =>
    unfold CacheWork.act
    dsimp only
    cases loads : c.load (b.whenFailing unread) with
    | error f => exact h
    | ok outcome =>
      obtain ⟨y, read⟩ := outcome
      rcases load_cases loads with ⟨_, rfl⟩ | ⟨rfl, _⟩
      · exact h
      · exact load_kept loads
  | analyzed set notes =>
    unfold CacheWork.act
    dsimp only
    cases found : c.analyze set notes with
    | error f => exact h
    | ok outcome =>
      obtain ⟨kept, unsaved⟩ := writable.analyze found
      exact kept.kept unsaved
  | updated id mtime held schemas vs => exact (writable.update id held schemas vs).kept rfl
  | schemaAdded id mtime held schema vs => exact (writable.update id held _ vs).kept rfl
  | violationsUpdated id vs => exact h.changes (writable.updateViolations id vs) (updateViolations_quiet c id vs)
  | removed id => exact h.changes (writable.remove id) (remove_quiet c id)
  | renamed old new => exact h.changes (writable.rename old new) (rename_quiet c old new)
  | invalidated schema => exact h.changes (writable.invalidate schema) (invalidate_quiet c schema)
  | hashUpdated s r =>
    unfold CacheWork.act
    dsimp only
    cases hashed : c.updateHash s r with
    | error f => exact h
    | ok d =>
      obtain ⟨digest, _, made⟩ := Outcome.bind_eq_ok.1 hashed
      cases made
      exact (writable.putHash s.id digest).kept rfl
  | cleared => exact (writable_clear c).kept rfl
  | saved unwritten => exact h.save unwritten
  | flushed unwritten => exact h.flush unwritten
  | expired unwritten => exact h.expire unwritten

theorem Kept.run {s : Saved Cache} (h : Kept awake s.value s.blobs) (work : List CacheWork) :
    Kept awake (CacheWork.run work s).value (CacheWork.run work s).blobs := by
  induction work generalizing s with
  | nil => exact h
  | cons w work ih => exact ih (h.act w)

/-- A cache with something to save, or as it has just been read from its blob. -/
def Awake (s : Saved Cache) : Prop :=
  s.value.writer.dirty = true ∨ ∃ c : Cache, c.load (s.blobs.whenFailing false) = .ok (s.value, true)

theorem Awake.kept {s : Saved Cache} (up : Awake s) (writable : s.value.Writable) : Kept True s.value s.blobs := by
  rcases up with unsaved | ⟨c, loads⟩
  · exact writable.kept unsaved
  · exact load_kept loads

/-- Another cache that loads the blob has the same entries and fingerprints. -/
def Persisted (c : Cache) (b : BlobStore) : Prop :=
  ∀ fresh : Cache, ∃ y, fresh.load (b.whenFailing false) = .ok (y, true) ∧ y.notes = c.notes ∧ y.hashes = c.hashes

theorem Kept.persisted (h : Kept True c b) (clean : c.writer.dirty = false) : Persisted c b := by
  intro fresh
  obtain ⟨text, there, v, made, read, taken⟩ := h.settled trivial clean
  refine ⟨{ fresh with made := made, hashes := c.hashes, notes := c.notes }, ?_, rfl, rfl⟩
  unfold Cache.load
  rw [BlobStore.read_whenFailing there]
  dsimp only
  rw [read, Option.map_some, Option.getD_some, taken]

/-- No change is lost: a cache with nothing to save is in the blob, as it is after a flush that can write. -/
structure Safe (s : Saved Cache) : Prop where
  clean : s.value.writer.dirty = false → Persisted s.value s.blobs
  flushed : s.blobs.blobs.get? blobName ≠ some .blocked →
    (s.value.flush (s.blobs.whenFailing false)).value.writer.dirty = false ∧
    (s.value.flush (s.blobs.whenFailing false)).value.notes = s.value.notes ∧
    (s.value.flush (s.blobs.whenFailing false)).value.hashes = s.value.hashes ∧
    Persisted (s.value.flush (s.blobs.whenFailing false)).value (s.value.flush (s.blobs.whenFailing false)).blobs

theorem Kept.safe {s : Saved Cache} (h : Kept True s.value s.blobs) : Safe s := by
  refine ⟨h.persisted, fun free => ?_⟩
  have flushed := h.flush false
  obtain ⟨text, written, _⟩ := h.writable.exists_holding
  have clean : (s.value.flush (s.blobs.whenFailing false)).value.writer.dirty = false := by
    unfold Cache.flush
    rw [written]
    exact Writer.clean_flush _ free text
  exact ⟨clean, rfl, rfl, flushed.persisted clean⟩

end Cache
end VaultSchema
