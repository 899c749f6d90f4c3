import VaultSchema.Proofs.Report.Store

/-! Series of work on a store of violations. After any series each note with violations has one row,
and the row holds violations of that note. -/

set_option autoImplicit false

namespace VaultSchema

/-- What may be done to a store of violations. -/
inductive ViolationWork where
  | added (vs : List Violation)
  | schemaSet (id schema : String) (vs : List Violation)
  | fieldReplaced (id schema field : String) (kind : ViolationKind) (vs : List Violation)
  | noteRemoved (id : String)
  | noteSchemaRemoved (id schema : String)
  | schemaRemoved (schema : String)
  | kindRemoved (schema : String) (kind : ViolationKind)
  | renamed (old new : String)
  | cleared
  | marked
  | batchBegun
  | batchEnded

namespace ViolationWork

/-- The slice of some work: what it takes away. -/
def owns : ViolationWork → Violation → Bool
  | schemaSet id schema _, v => v.document == id && v.schema == schema && v.kind != .duplicateValue
  | fieldReplaced id schema field kind _, v =>
    v.document == id && v.schema == schema && v.field == field && v.kind == kind
  | noteRemoved id, v => v.document == id
  | noteSchemaRemoved id schema, v => v.document == id && v.schema == schema
  | schemaRemoved schema, v => v.schema == schema
  | kindRemoved schema kind, v => v.schema == schema && v.kind == kind
  | renamed old new, v => v.document == old || v.document == new
  | cleared, _ => true
  | added _, _ | marked, _ | batchBegun, _ | batchEnded, _ => false

def brings : ViolationWork → List Violation
  | added vs | schemaSet _ _ vs | fieldReplaced _ _ _ _ vs => vs
  | _ => []

/-- The violations are of the note and the schema that are named with them. -/
def Addressed : ViolationWork → Prop
  | schemaSet id schema vs | fieldReplaced id schema _ _ vs => ∀ v ∈ vs, v.document = id ∧ v.schema = schema
  | _ => True

/-- Work on the violations themselves: it does not mark them, and neither begins nor ends a batch. -/
def Plain : ViolationWork → Prop
  | marked | batchBegun | batchEnded => False
  | _ => True

end ViolationWork

namespace ViolationStore

def act (s : ViolationStore) : ViolationWork → ViolationStore
  | .added vs => s.add vs
  | .schemaSet id schema vs => s.setSchema id schema vs
  | .fieldReplaced id schema field kind vs => s.replaceField id schema field kind vs
  | .noteRemoved id => s.removeNote id
  | .noteSchemaRemoved id schema => s.removeNoteSchema id schema
  | .schemaRemoved schema => s.removeSchema schema
  | .kindRemoved schema kind => s.removeKind schema kind
  | .renamed old new => s.rename old new
  | .cleared => s.clear
  | .marked => s.mark
  | .batchBegun => s.beginBatch
  | .batchEnded => s.endBatch

def run (s : ViolationStore) (work : List ViolationWork) : ViolationStore := work.foldl act s

def Filled (s : ViolationStore) : Prop := ∀ r ∈ s.byNote.rows, r.2 ≠ []

namespace Filled

variable {s : ViolationStore}

theorem congr {t : ViolationStore} (h : s.Filled) (same : t.byNote = s.byNote) : t.Filled := by
  unfold Filled
  rw [same]
  exact h

theorem replace (h : s.Filled) (id : String) (vs : List Violation) : (s.replace id vs).Filled := by
  unfold Filled ViolationStore.replace replaceIn
  intro r mem
  dsimp only at mem
  split at mem
  · exact h r (List.mem_of_mem_filter mem)
  · rename_i some
    rcases Table.of_mem_put mem with rfl | mem
    · simpa using some
    · exact h r mem

theorem drop (h : s.Filled) (id : String) : ({ s with byNote := s.byNote.drop id } : ViolationStore).Filled :=
  fun r mem => h r (List.mem_of_mem_filter mem)

theorem removeNote (h : s.Filled) (id : String) : (s.removeNote id).Filled := by
  unfold ViolationStore.removeNote
  split
  · exact (h.drop id).congr (byNote_notify _)
  · exact h

theorem removeNoteSchema (h : s.Filled) (id schema : String) : (s.removeNoteSchema id schema).Filled := by
  unfold ViolationStore.removeNoteSchema
  split
  · exact (h.replace _ _).congr (byNote_notify _)
  · exact h

theorem removeWhere (h : s.Filled) (p : Violation → Bool) : (s.removeWhere p).Filled := by
  unfold ViolationStore.removeWhere
  split
  · refine congr (s := { s with byNote := ⟨_⟩ }) ?_ (byNote_notify _)
    intro r mem
    simpa using (List.mem_filter.1 mem).2
  · exact h

theorem rename (h : s.Filled) (old new : String) : (s.rename old new).Filled := by
  unfold ViolationStore.rename
  split
  · exact h
  · rename_i vs row
    refine congr (s := { s with byNote := _ }) ?_ (byNote_notify _)
    intro r mem
    rcases Table.of_mem_put mem with rfl | mem
    · simpa using h _ (Table.mem_rows_of_get? row)
    · exact h.drop old r mem

theorem add (h : s.Filled) (vs : List Violation) : (s.add vs).Filled := by
  unfold ViolationStore.add
  split
  · exact h
  · exact (List.foldlRecOn vs addOne h fun _ h v _ => h.replace v.document _).congr (byNote_notify _)

end Filled

/-- What the rows of a store are like after any series of work. -/
structure Neat (s : ViolationStore) : Prop where
  tidy : s.Tidy
  filed : s.Filed
  filled : s.Filled

namespace Neat

variable {s : ViolationStore}

theorem congr {t : ViolationStore} (h : s.Neat) (same : t.byNote = s.byNote) : t.Neat :=
  ⟨h.tidy.congr same, h.filed.congr same, h.filled.congr same⟩

theorem empty (listeners : List Listener) : ({ listeners } : ViolationStore).Neat :=
  ⟨List.nodup_nil, fun _ _ mem => absurd mem List.not_mem_nil, fun _ mem => absurd mem List.not_mem_nil⟩

theorem act (h : s.Neat) {w : ViolationWork} (addressed : w.Addressed) : (s.act w).Neat := by
  obtain ⟨tidy, filed, filled⟩ := h
  cases w with
  | added vs => exact ⟨tidy.add vs, filed.add vs, filled.add vs⟩
  | schemaSet id schema vs =>
    exact ⟨tidy.setSchema _ _ _, filed.setSchema fun v mem => (addressed v mem).1,
      (filled.replace _ _).congr (byNote_notify _)⟩
  | fieldReplaced id schema field kind vs =>
    exact ⟨tidy.replaceField _ _ _ _ _, filed.replaceField fun v mem => (addressed v mem).1,
      (filled.replace _ _).congr (byNote_notify _)⟩
  | noteRemoved id => exact ⟨tidy.removeNote _, filed.removeNote _, filled.removeNote _⟩
  | noteSchemaRemoved id schema =>
    exact ⟨tidy.removeNoteSchema _ _, filed.removeNoteSchema _ _, filled.removeNoteSchema _ _⟩
  | schemaRemoved schema => exact ⟨tidy.removeWhere _, filed.removeWhere tidy _, filled.removeWhere _⟩
  | kindRemoved schema kind => exact ⟨tidy.removeWhere _, filed.removeWhere tidy _, filled.removeWhere _⟩
  | renamed old new => exact ⟨tidy.rename _ _, filed.rename _ _, filled.rename _ _⟩
  | cleared => exact (empty []).congr (byNote_notify _)
  | marked => exact ⟨tidy, filed, filled⟩
  | batchBegun => exact ⟨tidy, filed, filled⟩
  | batchEnded => exact congr ⟨tidy, filed, filled⟩ (byNote_endBatch s)

theorem run (h : s.Neat) {work : List ViolationWork} (addressed : ∀ w ∈ work, w.Addressed) :
    (s.run work).Neat := by
  induction work generalizing s with
  | nil => exact h
  | cons w rest ih => exact ih (h.act (addressed w (by simp))) fun w mem => addressed w (by simp [mem])

theorem rows (h : s.Neat) {r : String × List Violation} (mem : r ∈ s.byNote.rows) :
    r.2 ≠ [] ∧ ∀ v ∈ r.2, v.document = r.1 := by
  refine ⟨h.filled r mem, fun v inside => h.filed r.1 v ?_⟩
  rw [ofNote, (Table.mem_rows h.tidy).1 mem]
  exact inside

theorem mem_keys (h : s.Neat) {id : String} : id ∈ s.byNote.keys ↔ s.ofNote id ≠ [] := by
  rw [Table.mem_keys, ofNote]
  cases row : s.byNote.get? id with
  | none => simp
  | some vs => simpa using h.filled _ (Table.mem_rows_of_get? row)

theorem has_iff (h : s.Neat) {id : String} : s.byNote.has id = true ↔ s.ofNote id ≠ [] := by
  rw [Table.has, ← Table.mem_keys, h.mem_keys]

end Neat

end ViolationStore
end VaultSchema
