import VaultSchema.Proofs.Blob.Saving
import VaultSchema.Proofs.Index.Current

/-! Series of operations on an index together with its blob, in which reading and writing may fail
at any time. No operation but a write makes an index differ from what is in the blob without a write
being due. -/

set_option autoImplicit false

namespace VaultSchema

namespace TagIndex

variable {x y : TagIndex} {s : NoteStore}

theorem OfPaths.congr (h : x.OfPaths) (same : y.byTag = x.byTag) : y.OfPaths :=
  ⟨same ▸ h.tidy, fun t i mem => h.paths t i (by rwa [members, ← same])⟩

theorem OfPaths.addTags (h : x.OfPaths) (id : String) (tags : List String) : (x.addTags (.text id) tags).OfPaths := by
  refine ⟨h.tidy.addTags _ tags, fun t i mem => ?_⟩
  rcases (mem_members_addTags tags).1 mem with old | ⟨new, _⟩
  · exact h.paths t i old
  · exact ⟨id, new⟩

theorem OfPaths.discards (h : x.OfPaths) (id : Scalar) (tags : List String) :
    (tags.foldl (discard id) x).OfPaths :=
  ⟨h.tidy.discards id tags, fun t i mem => h.paths t i ((mem_members_discards tags).1 mem).1⟩

theorem OfPaths.update (h : x.OfPaths) (d : Document) : (x.update d).1.OfPaths := by
  unfold TagIndex.update
  dsimp only
  split
  · exact h
  · have synced := (h.discards (.text d.id) (Members.without (x.tagsFor (.text d.id)) (Text.distinct d.tags))).addTags
      d.id (Members.without (Text.distinct d.tags) (x.tagsFor (.text d.id)))
    split
    · exact synced.congr rfl
    · exact synced

theorem OfPaths.remove (h : x.OfPaths) (id : Scalar) : (x.remove id).1.OfPaths := by
  have dropped : (⟨x.byTag, x.byNote.drop id⟩ : TagIndex).OfPaths := h.congr rfl
  unfold TagIndex.remove
  dsimp only
  split
  · exact dropped
  · exact dropped.discards id _

theorem OfPaths.rename (h : x.OfPaths) (old : Scalar) (new : String) : (x.rename old (.text new)).1.OfPaths := by
  unfold TagIndex.rename
  dsimp only
  split
  · exact h.congr rfl
  · refine ⟨h.tidy.renamed _ _ _, fun t i mem => ?_⟩
    have from' := (mem_renamed (x.tagsFor old)).1 mem
    split at from'
    · rcases from' with ⟨kept, _⟩ | moved
      · exact h.paths t i kept
      · exact ⟨new, moved⟩
    · exact h.paths t i from'

theorem OfPaths.updateAll (h : x.OfPaths) (ds : List Document) : (x.updateAll ds).1.OfPaths := by
  induction ds generalizing x with
  | nil => exact h
  | cons d ds ih => exact ih (h.update d)

theorem OfPaths.removeAll (h : x.OfPaths) (ids : List Scalar) : (x.removeAll ids).1.OfPaths := by
  induction ids generalizing x with
  | nil => exact h
  | cons id ids ih => exact ih (h.remove id)

theorem OfPaths.reconcile (h : x.OfPaths) (s : NoteStore) : (x.reconcile s).1.OfPaths := (h.updateAll _).removeAll _

theorem Coherent.coherent_updateAll (h : x.Coherent) (ds : List Document) : (x.updateAll ds).1.Coherent := by
  induction ds generalizing x with
  | nil => exact h
  | cons d ds ih => exact ih (h.update d).1

/-- An index that is brought up to date lists nothing but paths of notes, whatever it listed before. -/
theorem Coherent.ofPaths_reconcile (h : x.Coherent) (s : NoteStore) : (x.reconcile s).1.OfPaths := by
  obtain ⟨coherent, tags⟩ := (h.coherent_updateAll s.listed).removeAll
    (Members.without (x.updateAll s.listed).1.byNote.keys (s.ids.map Scalar.text))
  refine ⟨coherent.tidy, fun t i mem => ?_⟩
  obtain ⟨kept, tagged⟩ := (tags t i).1 ((coherent.mirrored t i).1 mem)
  have present : i ∈ s.ids.map Scalar.text := by
    by_contra gone
    refine kept (Members.mem_without.2 ⟨Table.mem_keys.2 ?_, gone⟩)
    unfold tagsFor at tagged
    cases row : (x.updateAll s.listed).1.byNote.get? i with
    | none => simp [row] at tagged
    | some _ => rfl
  obtain ⟨id, _, rfl⟩ := List.mem_map.1 present
  exact ⟨id, rfl⟩

theorem update_quiet {d : Document} (quiet : (x.update d).2 = false) : (x.update d).1 = x := by
  unfold TagIndex.update at quiet ⊢
  dsimp only at quiet ⊢
  split at quiet
  · rename_i same
    rw [if_pos same]
  · cases quiet

theorem byTag_remove {id : Scalar} (quiet : (x.remove id).2 = false) : (x.remove id).1.byTag = x.byTag := by
  unfold TagIndex.remove at quiet ⊢
  dsimp only at quiet ⊢
  split at quiet
  · rename_i untagged
    rw [if_pos untagged]
  · cases quiet

theorem byTag_rename {old new : Scalar} (quiet : (x.rename old new).2 = false) :
    (x.rename old new).1.byTag = x.byTag := by
  unfold TagIndex.rename at quiet ⊢
  dsimp only at quiet ⊢
  split at quiet
  · rename_i untagged
    rw [if_pos untagged]
  · cases quiet

theorem updateAll_quiet {ds : List Document} (quiet : (x.updateAll ds).2 = 0) : (x.updateAll ds).1 = x := by
  induction ds generalizing x with
  | nil => rfl
  | cons d ds ih =>
    have count : (x.updateAll (d :: ds)).2 =
        if (x.update d).2 then ((x.update d).1.updateAll ds).2 + 1 else ((x.update d).1.updateAll ds).2 := rfl
    rw [count] at quiet
    split at quiet
    · cases quiet
    · rename_i same
      change ((x.update d).1.updateAll ds).1 = x
      rw [ih quiet, update_quiet (by simpa using same)]

theorem removeAll_quiet {ids : List Scalar} (quiet : (x.removeAll ids).2 = 0) : (x.removeAll ids).1 = x := by
  cases ids with
  | nil => rfl
  | cons id ids => exact absurd quiet (Nat.succ_ne_zero _)

theorem reconcile_quiet (quiet : (x.reconcile s).2 = 0) : (x.reconcile s).1 = x := by
  have count : (x.reconcile s).2 = (x.updateAll s.listed).2 + ((x.updateAll s.listed).1.removeAll
      (Members.without (x.updateAll s.listed).1.byNote.keys (s.ids.map Scalar.text))).2 := rfl
  obtain ⟨updated, removed⟩ := Nat.add_eq_zero_iff.1 (count ▸ quiet)
  exact (removeAll_quiet removed).trans (updateAll_quiet updated)

theorem Holds.congr {text : String} (h : x.Holds text) (same : y.byTag = x.byTag) : y.Holds text := by
  obtain ⟨z, read, members'⟩ := h
  exact ⟨z, read, fun t i => by rw [members', members, members, same]⟩

theorem Holds.ofPaths {text : String} (h : x.Holds text) (paths : x.OfPaths) {z : TagIndex}
    (read : ofText? text = some z) : z.OfPaths := by
  obtain ⟨z', read', members⟩ := h
  obtain rfl : z' = z := by rw [read] at read'; exact (Option.some.inj read').symm
  exact ⟨(ofText?_coherent read).tidy, fun t i mem => paths.paths t i ((members t i).1 mem)⟩

def Listed (b : BlobStore) : Prop := ∀ text z, b.text? blobName = some text → ofText? text = some z → z.OfPaths

end TagIndex

/-- What may be done to an index that is kept in a blob; flags tell whether reading or writing fails. -/
inductive IndexWork where
  | started (s : NoteStore) (unread unwritten : Bool)
  | loaded (unread : Bool)
  | rebuilt (s : NoteStore) (unwritten : Bool)
  | reconciled (s : NoteStore)
  | updated (d : Document)
  | removed (id : String)
  | renamed (old new : String)
  | saved (unwritten : Bool)
  | flushed (unwritten : Bool)
  | expired (unwritten : Bool)

namespace IndexWork

def act (x : StoredIndex) (b : BlobStore) : IndexWork → Saved StoredIndex
  | started s unread unwritten => x.startAmid s (b.whenFailing unread) (b.whenFailing unwritten)
  | loaded unread =>
    match x.load (b.whenFailing unread) with
    | .ok (some y) => ⟨y, b, none⟩
    | .ok none => ⟨x, b, none⟩
    | .error f => ⟨x, b, some f⟩
  | rebuilt s unwritten => x.rebuild s (b.whenFailing unwritten)
  | reconciled s => ⟨(x.reconcile s).1, b, none⟩
  | updated d => ⟨x.update d, b, none⟩
  | removed id => ⟨x.remove id, b, none⟩
  | renamed old new => ⟨x.rename old new, b, none⟩
  | saved unwritten => x.save (b.whenFailing unwritten)
  | flushed unwritten => x.flush (b.whenFailing unwritten)
  | expired unwritten => x.expire (b.whenFailing unwritten)

def run (work : List IndexWork) (s : Saved StoredIndex) : Saved StoredIndex :=
  work.foldl (fun s w => w.act s.value s.blobs) s

end IndexWork

namespace StoredIndex

/-- An index that can be written, and is written when nothing is unsaved. Where the blob may be loaded, it
lists nothing but paths. -/
structure Kept (loads : Prop) (x : StoredIndex) (b : BlobStore) : Prop where
  paths : x.index.OfPaths
  settled : x.writer.Settled x.index.Holds TagIndex.blobName b
  listed : loads → TagIndex.Listed b

variable {loads : Prop} {x : StoredIndex} {b : BlobStore}

theorem Kept.applied (h : Kept loads x b) {outcome : TagIndex × Bool} (paths : outcome.1.OfPaths)
    (quiet : outcome.2 = false → outcome.1.byTag = x.index.byTag) : Kept loads (x.applied outcome) b := by
  refine ⟨paths, fun clean => ?_, h.listed⟩
  obtain ⟨index, changed⟩ := outcome
  cases changed with
  | true => cases clean
  | false =>
    obtain ⟨text, there, holds⟩ := h.settled clean
    exact ⟨text, there, holds.congr (quiet rfl)⟩

theorem Kept.listed_of_text? (h : Kept loads x b) {text : String} (holds : x.index.Holds text) {c : BlobStore}
    (after : c.text? TagIndex.blobName = b.text? TagIndex.blobName ∨ c.text? TagIndex.blobName = some text) :
    loads → TagIndex.Listed c := by
  intro may found z there read
  rcases after with same | same
  · exact h.listed may found z (same ▸ there) read
  · rw [same] at there
    cases there
    exact holds.ofPaths h.paths read

theorem Kept.save (h : Kept loads x b) (unwritten : Bool) : Kept loads (x.save (b.whenFailing unwritten)).value
    (x.save (b.whenFailing unwritten)).blobs := by
  obtain ⟨text, written, holds⟩ := h.paths.exists_toText
  unfold StoredIndex.save
  rw [written]
  exact ⟨h.paths, Writer.settled_save holds _ _, h.listed_of_text? holds (Writer.text?_save ..)⟩

theorem Kept.flush (h : Kept loads x b) (unwritten : Bool) : Kept loads (x.flush (b.whenFailing unwritten)).value
    (x.flush (b.whenFailing unwritten)).blobs := by
  obtain ⟨text, written, holds⟩ := h.paths.exists_toText
  unfold StoredIndex.flush
  rw [written]
  exact ⟨h.paths, Writer.settled_flush holds h.settled, h.listed_of_text? holds (Writer.text?_flush ..)⟩

theorem Kept.expire (h : Kept loads x b) (unwritten : Bool) : Kept loads (x.expire (b.whenFailing unwritten)).value
    (x.expire (b.whenFailing unwritten)).blobs := by
  obtain ⟨text, written, holds⟩ := h.paths.exists_toText
  unfold StoredIndex.expire
  rw [written]
  exact ⟨h.paths, Writer.settled_expire holds h.settled, h.listed_of_text? holds (Writer.text?_expire ..)⟩

theorem rebuild_kept (x : StoredIndex) (s : NoteStore) (listed : loads → TagIndex.Listed b) (unwritten : Bool) :
    Kept loads (x.rebuild s (b.whenFailing unwritten)).value (x.rebuild s (b.whenFailing unwritten)).blobs := by
  have built : Kept loads ⟨TagIndex.ofNotes s, { x.writer with dirty := true }, x.ready⟩ b :=
    ⟨(TagIndex.current_ofNotes s).ofPaths, fun clean => (Bool.noConfusion clean), listed⟩
  have flushed := built.flush unwritten
  unfold rebuild
  dsimp only
  split
  · exact flushed
  · exact ⟨flushed.paths, flushed.settled, flushed.listed⟩

theorem exists_text_of_load {b : BlobStore} {y : StoredIndex} (loaded : x.load b = .ok (some y)) :
    ∃ text, b.text? TagIndex.blobName = some text ∧ TagIndex.ofText? text = some y.index ∧ y.writer = x.writer := by
  unfold load at loaded
  split at loaded
  · rename_i text found
    obtain ⟨index, read, rfl⟩ := Option.map_eq_some_iff.1 (Except.ok.inj loaded)
    exact ⟨text, BlobStore.text?_of_read found, read, rfl⟩
  all_goals cases loaded

theorem start_kept {s : NoteStore} {unread unwritten : Bool} (listed : loads → TagIndex.Listed b)
    (ran : (x.startAmid s (b.whenFailing unread) (b.whenFailing unwritten)).fault = none) :
    Kept loads (x.startAmid s (b.whenFailing unread) (b.whenFailing unwritten)).value
      (x.startAmid s (b.whenFailing unread) (b.whenFailing unwritten)).blobs := by
  unfold startAmid at ran ⊢
  cases loaded : x.load (b.whenFailing unread) with
  | error f =>
    rw [loaded] at ran
    cases ran
  | ok found =>
    cases found with
    | none => exact rebuild_kept x s listed unwritten
    | some y =>
      obtain ⟨text, there, read, _⟩ := exists_text_of_load loaded
      have paths := (load_coherent loaded).ofPaths_reconcile s
      refine ⟨paths, fun clean => ?_, listed⟩
      have quiet : (y.index.reconcile s).2 = 0 := by
        by_contra changed
        have scheduled : ((y.index.reconcile s).2 != 0) = true := by simpa using changed
        dsimp only [reconcile, StoredIndex.applied] at clean
        rw [scheduled] at clean
        cases clean
      have same : (y.reconcile s).1.index = y.index := TagIndex.reconcile_quiet quiet
      exact ⟨text, there, y.index, read, fun t i => by rw [same]⟩

theorem Kept.act (h : Kept loads x b) {w : IndexWork} (may : ∀ unread, w = .loaded unread → loads) :
    Kept loads (w.act x b).value (w.act x b).blobs := by
  cases w with
  | started s unread unwritten =>
    unfold IndexWork.act
    dsimp only
    cases faulty : (x.startAmid s (b.whenFailing unread) (b.whenFailing unwritten)).fault with
    | none => exact start_kept h.listed faulty
    | some f =>
      unfold startAmid at faulty ⊢
      cases loaded : x.load (b.whenFailing unread) with
      | error f => exact ⟨h.paths, h.settled, h.listed⟩
      | ok found =>
        rw [loaded] at faulty
        cases found with
        | none =>
          rw [(x.rebuild_begins s (b.whenFailing unwritten)).fault] at faulty
          cases faulty
        | some y => cases faulty
  | loaded unread =>
    unfold IndexWork.act
    dsimp only
    split
    · rename_i y loaded
      obtain ⟨text, there, read, _⟩ := exists_text_of_load loaded
      exact ⟨h.listed (may unread rfl) text y.index there read,
        fun _ => ⟨text, there, y.index, read, fun t i => Iff.rfl⟩, h.listed⟩
    · exact h
    · exact h
  | rebuilt s unwritten => exact rebuild_kept x s h.listed unwritten
  | reconciled s =>
    exact h.applied (h.paths.reconcile s) fun quiet =>
      congrArg TagIndex.byTag (TagIndex.reconcile_quiet (bne_eq_false_iff_eq.1 quiet))
  | updated d => exact h.applied (h.paths.update d) fun quiet => congrArg TagIndex.byTag (TagIndex.update_quiet quiet)
  | removed id => exact h.applied (h.paths.remove _) fun quiet => TagIndex.byTag_remove quiet
  | renamed old new => exact h.applied (h.paths.rename _ _) fun quiet => TagIndex.byTag_rename quiet
  | saved unwritten => exact h.save unwritten
  | flushed unwritten => exact h.flush unwritten
  | expired unwritten => exact h.expire unwritten

theorem Kept.run {s : Saved StoredIndex} (h : Kept loads s.value s.blobs) {work : List IndexWork}
    (may : ∀ unread, .loaded unread ∈ work → loads) :
    Kept loads (IndexWork.run work s).value (IndexWork.run work s).blobs := by
  induction work generalizing s with
  | nil => exact h
  | cons w work ih =>
    have first := h.act (w := w) fun unread same => may unread (by simp [same])
    exact ih first fun unread mem => may unread (by simp [mem])

/-- Another index that loads the blob has the same rows. -/
def Persisted (x : StoredIndex) (b : BlobStore) : Prop :=
  ∀ fresh : StoredIndex, ∃ y rows, fresh.load (b.whenFailing false) = .ok (some y) ∧
    y.index.toRows = .ok rows ∧ x.index.toRows = .ok rows

theorem Kept.persisted (h : Kept loads x b) (clean : x.writer.dirty = false) : Persisted x b := by
  intro fresh
  obtain ⟨text, there, y, read, members⟩ := h.settled clean
  obtain ⟨same, rows, made⟩ := TagIndex.toRows_congr h.paths.tidy (TagIndex.ofText?_coherent read).tidy
    (fun t i => (members t i).symm) h.paths.paths
  refine ⟨{ fresh with index := y, ready := true }, rows, ?_, same ▸ made, made⟩
  unfold load
  rw [BlobStore.read_whenFailing there]
  dsimp only
  rw [read]
  rfl

/-- No change is lost: an index with nothing to save is in the blob, as it is after a flush that can write. -/
structure Safe (s : Saved StoredIndex) : Prop where
  clean : s.value.writer.dirty = false → Persisted s.value s.blobs
  flushed : s.blobs.blobs.get? TagIndex.blobName ≠ some .blocked →
    (s.value.flush (s.blobs.whenFailing false)).value.writer.dirty = false ∧
    (s.value.flush (s.blobs.whenFailing false)).value.index = s.value.index ∧
    Persisted (s.value.flush (s.blobs.whenFailing false)).value (s.value.flush (s.blobs.whenFailing false)).blobs

theorem Kept.safe {s : Saved StoredIndex} (h : Kept loads s.value s.blobs) : Safe s := by
  refine ⟨h.persisted, fun free => ?_⟩
  have flushed := h.flush false
  obtain ⟨text, written, _⟩ := h.paths.exists_toText
  have clean : (s.value.flush (s.blobs.whenFailing false)).value.writer.dirty = false := by
    unfold StoredIndex.flush
    rw [written]
    exact Writer.clean_flush _ free text
  exact ⟨clean, rfl, flushed.persisted clean⟩

end StoredIndex
end VaultSchema
