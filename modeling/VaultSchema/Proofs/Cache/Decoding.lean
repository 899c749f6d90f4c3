import VaultSchema.Cache.Stored
import VaultSchema.Proofs.Outcome

/-! What a mapping tells of a cache, said without its readers: without the order in which they look
at its parts, and without their faults. The readers succeed just where something is told, and find
just that. -/

set_option autoImplicit false

namespace VaultSchema

structure StoredViolation.ToldBy (v : StoredViolation) (m : Entries) : Prop where
  document : Entries.get? "document_id" m = some v.document
  schema : Entries.get? "schema_id" m = some v.schema
  field : Entries.get? "field_path" m = some v.field
  kind : Entries.get? "kind" m = some (.text v.kind.name)
  message : Entries.get? "message" m = some v.message
  expected : v.expected = (Entries.get? "expected" m).getD .null
  actual : v.actual = (Entries.get? "actual" m).getD .null

namespace CachedNote

inductive Dates : Value → Binary64 → Prop where
  | float (x : Binary64) : Dates (.float x) x
  | bool (b : Bool) : Dates (.bool b) (if b then .one else .zero)
  | int {i : Int} {x : Binary64} (nearest : Binary64.ofInt? i = some x) : Dates (.int i) x
  | text {s : String} {x : Binary64} (reads : Decimal.readLoose? s = some x) : Dates (.text s) x

inductive Members : Value → List Value → Prop where
  | sequence (kind : SequenceKind) (items : List Value) : Members (.sequence kind items) items
  | text (s : String) : Members (.text s) (s.toList.map fun c => .text c.toString)
  | mapping (m : Entries) : Members (.mapping m) (m.map fun e => .scalar e.1)

/-- An entry with the time, the schemas and the violations that a mapping has, none where it has no such key. -/
structure ToldBy (e : CachedNote) (m : Entries) : Prop where
  time : ∃ v, Entries.get? "mtime" m = some v ∧ Dates v e.mtime
  schemas : ∃ names, Members ((Entries.get? "schema_ids" m).getD (.list [])) names ∧
    List.Forall₂ (fun v name => v.spelling = .ok name) names e.schemas
  violations : ∃ items, Members ((Entries.get? "violations" m).getD (.list [])) items ∧
    List.Forall₂ (fun x v => ∃ n, x = .mapping n ∧ StoredViolation.ToldBy v n) items e.stored

end CachedNote

def Entries.Section (key : String) (m rows : Entries) : Prop :=
  Entries.get? key m = some (.mapping rows) ∨ Entries.get? key m = none ∧ rows = []

/-- Settings, fingerprints and entries as a mapping of the current version has them. -/
structure Cache.ToldBy (made : Option String) (hashes : Table String String) (notes : Table String CachedNote)
    (m : Entries) : Prop where
  version : ∃ s, Entries.get? "version" m = some (.scalar s) ∧ s.sameKey (.int Cache.version) = true
  settings : ∀ s, made = some s ↔ Entries.get? "settings_hash" m = some (.text s)
  hashes : ∃ rows, Entries.Section "schema_hashes" m rows ∧
    List.Forall₂ (fun e r => e.1.spelling = .ok r.1 ∧ e.2.spelling = .ok r.2) rows hashes.rows
  notes : ∃ rows, Entries.Section "documents" m rows ∧
    List.Forall₂ (fun e r => e.1.spelling = .ok r.1 ∧ ∃ n, e.2 = .mapping n ∧ CachedNote.ToldBy r.2 n) rows notes.rows

theorem ViolationKind.ofName?_eq_some {s : String} {k : ViolationKind} : ofName? s = some k ↔ s = k.name := by
  constructor
  · intro found
    unfold ofName? at found
    have name := List.find?_some found
    exact (beq_iff_eq.1 name).symm
  · rintro rfl
    exact ofName?_name k

namespace StoredViolation

theorem partOf_eq_ok {key : String} {m : Entries} {v : Value} :
    partOf key m = .ok v ↔ Entries.get? key m = some v := by
  unfold partOf
  rw [Outcome.map_getD_eq_ok]
  simp

theorem kindOf_eq_ok {m : Entries} {k : ViolationKind} :
    kindOf m = .ok k ↔ Entries.get? "kind" m = some (.text k.name) := by
  unfold kindOf
  split
  · rename_i none
    simp [none]
  · rename_i s there
    rw [Outcome.map_getD_eq_ok, there]
    simp [ViolationKind.ofName?_eq_some]
  · rename_i v other there
    simp only [there, reduceCtorEq, false_iff, Option.some.injEq]
    rintro rfl
    exact other _ rfl

theorem ofEntries_eq_ok {m : Entries} {v : StoredViolation} : ofEntries m = .ok v ↔ v.ToldBy m := by
  simp only [ofEntries, Outcome.bind_eq_ok, partOf_eq_ok, kindOf_eq_ok]
  constructor
  · rintro ⟨document, first, schema, second, field, third, kind, fourth, message, fifth, made⟩
    cases made
    exact ⟨first, second, third, fourth, fifth, rfl, rfl⟩
  · rintro ⟨first, second, third, fourth, fifth, expected, actual⟩
    refine ⟨_, first, _, second, _, third, _, fourth, _, fifth, ?_⟩
    rw [← expected, ← actual]
    rfl

end StoredViolation

namespace CachedNote

theorem readTime_eq_ok {v : Value} {x : Binary64} : readTime v = .ok x ↔ Dates v x := by
  constructor
  · intro read
    unfold readTime at read
    split at read
    · cases read
      exact .float x
    · cases read
      exact .bool _
    · obtain ⟨y, nearest, made⟩ := Outcome.map_getD_eq_ok.1 read
      cases made
      exact .int nearest
    · obtain ⟨y, reads, made⟩ := Outcome.map_getD_eq_ok.1 read
      cases made
      exact .text reads
    · cases read
  · rintro (_ | _ | nearest | reads)
    · rfl
    · rfl
    · simp [readTime, nearest]
    · simp [readTime, reads]

theorem readMembers_eq_ok {v : Value} {items : List Value} : readMembers v = .ok items ↔ Members v items := by
  constructor
  · intro read
    unfold readMembers at read
    split at read
    · cases read
      exact .sequence _ _
    · cases read
      exact .text _
    · cases read
      exact .mapping _
    · cases read
  · rintro (_ | _ | _) <;> rfl

theorem readViolation_eq_ok {x : Value} {v : StoredViolation} :
    readViolation x = .ok v ↔ ∃ n, x = .mapping n ∧ v.ToldBy n := by
  cases x <;> simp [readViolation, StoredViolation.ofEntries_eq_ok]

theorem ofValue_eq_ok {x : Value} {e : CachedNote} : ofValue x = .ok e ↔ ∃ m, x = .mapping m ∧ e.ToldBy m := by
  cases x with
  | scalar s => simp [ofValue]
  | sequence kind items => simp [ofValue]
  | mapping m =>
    simp only [ofValue, Outcome.bind_eq_ok, Outcome.map_getD_eq_ok, readTime_eq_ok, readMembers_eq_ok,
      Outcome.mapM_eq_ok_iff, Outcome.mapError_eq_ok, readViolation_eq_ok, Value.mapping.injEq, exists_eq_left']
    constructor
    · rintro ⟨time, dated, names, there, schemas, spelt, items, here, stored, told, made⟩
      cases made
      exact ⟨dated, ⟨names, there, spelt⟩, ⟨items, here, told⟩⟩
    · rintro ⟨dated, ⟨names, there, spelt⟩, ⟨items, here, told⟩⟩
      exact ⟨_, dated, names, there, _, spelt, items, here, _, told, rfl⟩

end CachedNote

namespace Cache

theorem section?_eq_ok {key : String} {m rows : Entries} : section? key m = .ok rows ↔ Entries.Section key m rows := by
  unfold section? Entries.Section
  split
  · rename_i none
    simp [none, eq_comm]
  · rename_i there
    simp [there]
  · rename_i v other there
    simp only [there, reduceCtorEq, Option.some.injEq, false_and, or_false, false_iff]
    rintro rfl
    exact other _ rfl

theorem readRow_eq_ok {α : Type} {read : Value → Except StoredFault α} {e : Scalar × Value} {r : String × α} :
    readRow read e = .ok r ↔ e.1.spelling = .ok r.1 ∧ read e.2 = .ok r.2 := by
  simp only [readRow, Outcome.bind_eq_ok, Outcome.mapError_eq_ok]
  constructor
  · rintro ⟨name, spelt, a, made, same⟩
    cases same
    exact ⟨spelt, made⟩
  · rintro ⟨spelt, made⟩
    exact ⟨_, spelt, _, made, rfl⟩

theorem isCurrent_iff {m : Entries} : isCurrent m = true ↔
    ∃ s, Entries.get? "version" m = some (.scalar s) ∧ s.sameKey (.int version) = true := by
  unfold isCurrent
  split
  · rename_i s there
    simp [there]
  · rename_i other
    simp only [Bool.false_eq_true, false_iff, not_exists, not_and]
    exact fun s there => (other s there).elim

theorem settings_eq_iff {m : Entries} {made : Option String} :
    made = (match Entries.get? "settings_hash" m with
      | some (.text s) => some s
      | _ => none) ↔ ∀ s, made = some s ↔ Entries.get? "settings_hash" m = some (.text s) := by
  have told : ∀ s, (match Entries.get? "settings_hash" m with
      | some (.text s) => some s
      | _ => none) = some s ↔ Entries.get? "settings_hash" m = some (.text s) := by
    intro s
    split
    · rename_i there
      simp [there]
    · rename_i other
      simp only [reduceCtorEq, false_iff]
      exact other s
  constructor
  · rintro rfl
    exact told
  · exact fun same => Option.ext fun s => (same s).trans (told s).symm

theorem takeOver_eq_ok {c y : Cache} {v : Value} : c.takeOver v = .ok y ↔
    ∃ m made hashes notes, v = .mapping m ∧ ToldBy made hashes notes m ∧
      y = { c with made := made, hashes := hashes, notes := notes } := by
  cases v with
  | scalar s => simp [takeOver]
  | sequence kind items => simp [takeOver]
  | mapping m =>
    have rows : ∀ {part : Entries} {notes : List (String × CachedNote)},
        part.mapM (readRow CachedNote.ofValue) = .ok notes ↔ List.Forall₂ (fun e r => e.1.spelling = .ok r.1 ∧
          ∃ n, e.2 = .mapping n ∧ CachedNote.ToldBy r.2 n) part notes := by
      simp only [Outcome.mapM_eq_ok_iff, readRow_eq_ok, CachedNote.ofValue_eq_ok, implies_true]
    have prints : ∀ {part : Entries} {hashes : List (String × String)},
        part.mapM (readRow fun v => v.spelling.mapError StoredFault.value) = .ok hashes ↔
          List.Forall₂ (fun e r => e.1.spelling = .ok r.1 ∧ e.2.spelling = .ok r.2) part hashes := by
      simp only [Outcome.mapM_eq_ok_iff, readRow_eq_ok, Outcome.mapError_eq_ok, implies_true]
    unfold takeOver
    dsimp only
    constructor
    · intro taken
      split at taken
      · cases taken
      · rename_i current
        obtain ⟨first, documents, taken⟩ := Outcome.bind_eq_ok.1 taken
        obtain ⟨notes, entries, taken⟩ := Outcome.bind_eq_ok.1 taken
        obtain ⟨second, fingerprints, taken⟩ := Outcome.bind_eq_ok.1 taken
        obtain ⟨hashes, values, taken⟩ := Outcome.bind_eq_ok.1 taken
        cases taken
        exact ⟨m, _, ⟨hashes⟩, ⟨notes⟩, rfl, ⟨isCurrent_iff.1 (by simpa using current), settings_eq_iff.1 rfl,
          ⟨second, section?_eq_ok.1 fingerprints, prints.1 values⟩,
          ⟨first, section?_eq_ok.1 documents, rows.1 entries⟩⟩, rfl⟩
    · rintro ⟨_, made, ⟨hashes⟩, ⟨notes⟩, ⟨⟩, told, rfl⟩
      obtain ⟨version, settings, ⟨second, fingerprints, values⟩, ⟨first, documents, entries⟩⟩ := told
      rw [if_neg (by simp [isCurrent_iff.2 version]), settings_eq_iff.2 settings]
      exact Outcome.bind_eq_ok.2 ⟨first, section?_eq_ok.2 documents, Outcome.bind_eq_ok.2 ⟨notes, rows.2 entries,
        Outcome.bind_eq_ok.2 ⟨second, section?_eq_ok.2 fingerprints, Outcome.bind_eq_ok.2 ⟨hashes, prints.2 values, rfl⟩⟩⟩⟩

end Cache
end VaultSchema
