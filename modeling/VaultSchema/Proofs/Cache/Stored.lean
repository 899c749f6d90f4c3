import VaultSchema.Cache.Stored
import VaultSchema.Proofs.Cache.Printable
import VaultSchema.Proofs.Json.RoundTrip
import VaultSchema.Proofs.Table

/-! A cache that was written is read as it was. Its times of change are proper doubles because they
are those of notes, its violations consist of texts or of what was read before, and its paths and
identifiers are distinct; so its value is one that JSON keeps. -/

set_option autoImplicit false

namespace VaultSchema

theorem Moment.held_secondsOfMicros (micros : Int) : (secondsOfMicros micros).Held := by
  unfold secondsOfMicros
  exact Binary64.held_ofRatio ..

theorem Document.held_mtime (d : Document) : d.mtime.Held := by
  unfold mtime
  cases d.modified with
  | none => exact Binary64.held_zero false
  | some m =>
    rw [Option.map_some, Option.getD_some]
    exact Moment.held_secondsOfMicros m.toMicros

theorem StoredViolation.ofEntries_toEntries (v : StoredViolation) : ofEntries v.toEntries = .ok v := by
  simp [ofEntries, toEntries, partOf, kindOf, Entries.get?, Entries.find?, ViolationKind.ofName?_name, bind,
    Except.bind, pure, Except.pure]

structure StoredViolation.Plain (v : StoredViolation) : Prop where
  document : v.document.Plain
  schema : v.schema.Plain
  field : v.field.Plain
  message : v.message.Plain
  expected : v.expected.Plain
  actual : v.actual.Plain

theorem StoredViolation.Plain.toEntries {v : StoredViolation} (plain : v.Plain) : (Value.mapping v.toEntries).Plain := by
  change (Payload.record [("document_id", v.document), ("schema_id", v.schema), ("field_path", v.field),
    ("kind", .text v.kind.name), ("message", v.message), ("expected", v.expected), ("actual", v.actual)]).Plain
  refine Payload.plain_record (by simp) ?_
  simp only [List.forall_mem_cons, List.not_mem_nil, false_implies, implies_true, and_true]
  exact ⟨plain.document, plain.schema, plain.field, .text _, plain.message, plain.expected, plain.actual⟩

theorem Violation.plain_stored (v : Violation) : v.stored.Plain :=
  ⟨.text _, .text _, .text _, .text _, Payload.plain_optionalText _, Payload.plain_optionalText _⟩

@[simp] theorem Violation.violation?_stored (v : Violation) : v.stored.violation? = some v := by
  obtain ⟨document, schema, field, kind, message, expected, actual⟩ := v
  cases expected <;> cases actual <;> rfl

theorem Violation.ofEntries_toEntries (v : Violation) : ofEntries v.toEntries = .ok v := by
  simp [ofEntries, toEntries, StoredViolation.ofEntries_toEntries, bind, Except.bind, pure, Except.pure]

namespace CachedNote

theorem ofValue_toValue (e : CachedNote) : ofValue e.toValue = .ok e := by
  have names : (e.schemas.map Value.text).mapM (fun v => v.spelling.mapError StoredFault.value) =
      .ok e.schemas := Outcome.mapM_map_eq_ok fun _ _ => rfl
  have violations : (e.stored.map fun v => Value.mapping v.toEntries).mapM readViolation =
      .ok e.stored := by
    refine Outcome.mapM_map_eq_ok fun v _ => ?_
    rw [readViolation, StoredViolation.ofEntries_toEntries]
    rfl
  simp [ofValue, toValue, Entries.get?, Entries.find?, readTime, readMembers, names, violations, bind,
    Except.bind, pure, Except.pure]

structure Plain (e : CachedNote) : Prop where
  time : e.mtime.Held
  stored : ∀ v ∈ e.stored, v.Plain

theorem Plain.toValue {e : CachedNote} (plain : e.Plain) : e.toValue.Plain := by
  change (Payload.record [("mtime", .float e.mtime), ("schema_ids", Payload.texts e.schemas),
    ("violations", .list (e.stored.map fun v => .mapping v.toEntries))]).Plain
  refine Payload.plain_record (by simp) ?_
  simp only [List.forall_mem_cons, List.not_mem_nil, false_implies, implies_true, and_true]
  exact ⟨.float _ plain.time, Payload.plain_list fun schema _ => .text schema,
    Payload.plain_list fun v mem => (plain.stored v mem).toEntries⟩

section violations

variable {e : CachedNote} (vs : List Violation)

theorem plain_ofViolations {mtime : Binary64} (held : mtime.Held) (schemas : List String) :
    (ofViolations mtime schemas vs).Plain := by
  refine ⟨held, fun v mem => ?_⟩
  obtain ⟨w, _, rfl⟩ := List.mem_map.1 mem
  exact w.plain_stored

@[simp] theorem violations_ofViolations (mtime : Binary64) (schemas : List String) :
    (ofViolations mtime schemas vs).violations = vs := by
  simp [violations, ofViolations, List.filterMap_map]

@[simp] theorem violations_withViolations : (e.withViolations vs).violations = vs := violations_ofViolations vs _ _

theorem Plain.withViolations (plain : e.Plain) : (e.withViolations vs).Plain := plain_ofViolations vs plain.time _

theorem Plain.renamed (plain : e.Plain) (id : String) : (e.renamed id).Plain := by
  refine ⟨plain.time, fun v mem => ?_⟩
  obtain ⟨w, inside, rfl⟩ := List.mem_map.1 mem
  exact { plain.stored w inside with document := .text id }

end violations

end CachedNote

namespace Cache

/-- The paths and the identifiers in a cache differ, and JSON keeps its entries. -/
structure Writable (c : Cache) : Prop where
  notes : c.notes.keys.Nodup
  hashes : c.hashes.keys.Nodup
  entries : ∀ r ∈ c.notes.rows, r.2.Plain

variable {c : Cache}

theorem plain_rows {α : Type} {t : Table String α} {f : α → Value} (distinct : t.keys.Nodup)
    (plain : ∀ r ∈ t.rows, (f r.2).Plain) :
    (Value.mapping (t.rows.map fun r => (.text r.1, f r.2))).Plain := by
  have same : t.rows.map (fun r => (Scalar.text r.1, f r.2)) =
      (t.rows.map fun r => (r.1, f r.2)).map fun field => (.text field.1, field.2) := by simp
  rw [same]
  refine Payload.plain_record (by simpa [Table.keys, Function.comp_def] using distinct) ?_
  intro field mem
  obtain ⟨r, inside, rfl⟩ := List.mem_map.1 mem
  exact plain r inside

theorem Writable.plain (h : c.Writable) : c.toValue.Plain := by
  change (Payload.record [("version", .int version), ("settings_hash", .text c.settings),
    ("schema_hashes", .mapping (c.hashes.rows.map fun r => (.text r.1, .text r.2))),
    ("documents", .mapping (c.notes.rows.map fun r => (.text r.1, r.2.toValue)))]).Plain
  refine Payload.plain_record (by simp) ?_
  simp only [List.forall_mem_cons, List.not_mem_nil, false_implies, implies_true, and_true]
  exact ⟨.int version (by decide), .text _, plain_rows h.hashes fun r _ => .text r.2,
    plain_rows h.notes fun r mem => (h.entries r mem).toValue⟩

theorem mapM_readRow {α : Type} {read : Value → Except StoredFault α} {f : α → Value}
    (back : ∀ a, read (f a) = .ok a) (rows : List (String × α)) :
    (rows.map fun r => (Scalar.text r.1, f r.2)).mapM (readRow read) = .ok rows := by
  refine Outcome.mapM_map_eq_ok fun r _ => ?_
  rw [readRow, back]
  rfl

/-- A cache takes over all that another one writes: its entries, its fingerprints and its settings. -/
theorem takeOver_toValue (into c : Cache) : into.takeOver c.toValue =
    .ok { into with made := some c.settings, hashes := c.hashes, notes := c.notes } := by
  have notes := mapM_readRow CachedNote.ofValue_toValue c.notes.rows
  have hashes := @mapM_readRow String (fun v => v.spelling.mapError StoredFault.value) .text (fun _ => rfl) c.hashes.rows
  simp [takeOver, toValue, isCurrent, section?, Entries.get?, Entries.find?, notes, hashes, bind,
    Except.bind, pure, Except.pure, Scalar.sameKey, Scalar.rank?]

theorem Writable.exists_toText (h : c.Writable) : ∃ text, c.toText = .ok text :=
  h.plain.exists_writeAt .spaced 0

theorem Writable.load (h : c.Writable) {into : Cache} {b : BlobStore} {text : String}
    (written : c.toText = .ok text) (found : b.read blobName = .found text) : into.load b =
      .ok ({ into with made := some c.settings, hashes := c.hashes, notes := c.notes }, true) := by
  unfold Cache.load
  rw [found]
  dsimp only
  rw [Json.read?_write Json.loose_spaced h.plain written, Option.map_some, Option.getD_some, takeOver_toValue]

theorem load_of_unread {b : BlobStore} (unread : b.read blobName = .absent ∨ b.read blobName = .failed) :
    c.load b = .ok (c, false) := by
  unfold Cache.load
  rcases unread with unread | unread <;> rw [unread]

end Cache
end VaultSchema
