import VaultSchema.Proofs.Report.Series

/-! Work on a store of violations owns a slice. It takes the violations of the slice away and puts
others behind, and leaves what is outside of the slice where it is. Renaming is the one work whose
violations go over to another note. -/

set_option autoImplicit false

namespace VaultSchema.ViolationStore

variable {s : ViolationStore}

/-- A slice of one note is cut out of the violations of this note alone. -/
theorem Filed.filter_note (h : s.Filed) (id j : String) (p : Violation → Bool) :
    (s.ofNote j).filter (fun v => !(v.document == id && p v)) =
      if id = j then (s.ofNote j).filter (!p ·) else s.ofNote j := by
  split
  · rename_i same
    refine List.filter_congr fun v mem => ?_
    simp [h j v mem, same]
  · rename_i differ
    rw [List.filter_eq_self]
    intro v mem
    simp [h j v mem, Ne.symm differ]

theorem filter_note_of_filed {id : String} {vs : List Violation} (filed : ∀ v ∈ vs, v.document = id) (j : String) :
    vs.filter (·.document == j) = if id = j then vs else [] := by
  split
  · rename_i same
    subst same
    rw [List.filter_eq_self]
    intro v mem
    simp [filed v mem]
  · rename_i differ
    rw [List.filter_eq_nil_iff]
    intro v mem
    simp [filed v mem, differ]

theorem Filed.cut_append (h : s.Filed) {id : String} {vs : List Violation} (filed : ∀ v ∈ vs, v.document = id)
    (p : Violation → Bool) (j : String) :
    (if id = j then (s.ofNote id).filter (!p ·) ++ vs else s.ofNote j) =
      (s.ofNote j).filter (fun v => !(v.document == id && p v)) ++ vs.filter (·.document == j) := by
  rw [h.filter_note, filter_note_of_filed filed]
  by_cases here : id = j
  · subst here
    simp only [if_true]
  · simp only [if_neg here, List.append_nil]

theorem Filed.cut (h : s.Filed) (id : String) (p : Violation → Bool) (j : String) :
    (if id = j then (s.ofNote id).filter (!p ·) else s.ofNote j) =
      (s.ofNote j).filter fun v => !(v.document == id && p v) := by
  simpa using h.cut_append (fun v (mem : v ∈ []) => absurd mem List.not_mem_nil) p j

/-- Work leaves what is outside of its slice where it is, and puts behind it what it brings. -/
theorem Neat.ofNote_act (h : s.Neat) {w : ViolationWork} (addressed : w.Addressed)
    (stays : ∀ old new, w ≠ .renamed old new) (j : String) :
    (s.act w).ofNote j = (s.ofNote j).filter (!w.owns ·) ++ w.brings.filter (·.document == j) := by
  cases w with
  | added vs => simp [ViolationStore.act, ViolationWork.owns, ViolationWork.brings]
  | schemaSet id schema vs =>
    simp only [ViolationStore.act, ViolationWork.owns, ViolationWork.brings, Bool.and_assoc, ofNote_setSchema]
    exact h.filed.cut_append (fun v mem => (addressed v mem).1) (ownedBy schema) j
  | fieldReplaced id schema field kind vs =>
    have cut := h.filed.cut_append (fun v mem => (addressed v mem).1) (isAbout schema field kind) j
    simp only [isAbout, Bool.and_assoc] at cut
    simp only [ViolationStore.act, ViolationWork.owns, ViolationWork.brings, Bool.and_assoc, ofNote_replaceField, isAbout]
    exact cut
  | noteRemoved id =>
    have cut := h.filed.cut id (fun _ => true) j
    simp only [Bool.and_true, Bool.not_true, List.filter_false] at cut
    simp only [ViolationStore.act, ViolationWork.owns, ViolationWork.brings, List.filter_nil, List.append_nil,
      ofNote_removeNote]
    exact cut
  | noteSchemaRemoved id schema =>
    simp only [ViolationStore.act, ViolationWork.owns, ViolationWork.brings, List.filter_nil, List.append_nil,
      ofNote_removeNoteSchema]
    exact h.filed.cut id (·.schema == schema) j
  | schemaRemoved schema =>
    simp only [ViolationStore.act, removeSchema, h.tidy.ofNote_removeWhere, ViolationWork.owns, ViolationWork.brings,
      List.filter_nil, List.append_nil]
  | kindRemoved schema kind =>
    simp only [ViolationStore.act, removeKind, h.tidy.ofNote_removeWhere, ViolationWork.owns, ViolationWork.brings,
      List.filter_nil, List.append_nil]
  | renamed old new => exact (stays old new rfl).elim
  | cleared => simp [ViolationStore.act, ViolationWork.owns, ViolationWork.brings]
  | marked | batchBegun | batchEnded => simp [ViolationStore.act, ViolationWork.owns, ViolationWork.brings]

theorem ofSchema_setSchema (s : ViolationStore) {id schema : String} {vs : List Violation}
    (of : ∀ v ∈ vs, v.schema = schema) :
    ((s.setSchema id schema vs).ofNote id).filter (·.schema == schema) =
      ((s.ofNote id).filter fun v => v.schema == schema && v.kind == .duplicateValue) ++ vs := by
  have all : vs.filter (·.schema == schema) = vs := by
    rw [List.filter_eq_self]
    intro v mem
    simp [of v mem]
  rw [ofNote_setSchema, if_pos rfl, List.filter_append, all, List.filter_filter]
  congr 1
  refine List.filter_congr fun v _ => ?_
  cases same : v.schema == schema <;> simp [ownedBy, same, bne]

theorem Neat.ofNote_rename (h : s.Neat) (old new j : String) : (s.rename old new).ofNote j =
    if s.ofNote old = [] then s.ofNote j
    else if j = new then (s.ofNote old).map fun v => { v with document := new }
    else if j = old then [] else s.ofNote j := by
  rw [ofNote_rename_has]
  by_cases none : s.ofNote old = []
  · rw [if_pos none, if_neg fun has => h.has_iff.1 has none]
  · rw [if_neg none, if_pos (h.has_iff.2 none)]
    simp only [eq_comm]

theorem sublist_drop {rows : List (String × List Violation)} {id : String} {p : Violation → Bool}
    (gone : ∀ r ∈ rows, r.1 = id → r.2.filter p = []) :
    ((rows.map Prod.snd).flatten.filter p).Sublist ((rows.filter fun r => r.1 ≠ id).map Prod.snd).flatten := by
  induction rows with
  | nil => exact List.Sublist.refl _
  | cons r rows ih =>
    have rest := ih fun q mem => gone q (List.mem_cons_of_mem _ mem)
    rw [List.map_cons, List.flatten_cons, List.filter_append]
    by_cases here : r.1 = id
    · rw [gone r List.mem_cons_self here, List.nil_append, List.filter_cons_of_neg (by simpa using here)]
      exact rest
    · rw [List.filter_cons_of_pos (by simpa using here), List.map_cons, List.flatten_cons]
      exact List.filter_sublist.append rest

theorem sublist_putRow {rows : List (String × List Violation)} {id : String} {vs : List Violation}
    {p : Violation → Bool} (kept : ∀ r ∈ rows, r.1 = id → (r.2.filter p).Sublist vs) :
    ((rows.map Prod.snd).flatten.filter p).Sublist ((Table.putRow id vs rows).map Prod.snd).flatten := by
  induction rows with
  | nil => exact List.nil_sublist _
  | cons r rows ih =>
    rw [List.map_cons, List.flatten_cons, List.filter_append]
    unfold Table.putRow
    split
    · rename_i here
      exact (kept r List.mem_cons_self here).append List.filter_sublist
    · exact List.filter_sublist.append (ih fun q mem => kept q (List.mem_cons_of_mem _ mem))

theorem Tidy.row_eq (h : s.Tidy) {r : String × List Violation} (mem : r ∈ s.byNote.rows) :
    r.2 = s.ofNote r.1 := by
  rw [ofNote, (Table.mem_rows h).1 mem]
  rfl

theorem all_eq (s : ViolationStore) : s.all .all = s.byNote.values.flatten :=
  List.filter_eq_self.2 fun _ _ => rfl

theorem all_notify (s : ViolationStore) : s.notify.all .all = s.byNote.values.flatten := by
  rw [all_eq, byNote_notify]

theorem Tidy.sublist_replace (h : s.Tidy) {id : String} {vs : List Violation} {p : Violation → Bool}
    (kept : ((s.ofNote id).filter p).Sublist vs) :
    ((s.all .all).filter p).Sublist ((s.replace id vs).all .all) := by
  have row : ∀ r ∈ s.byNote.rows, r.1 = id → (r.2.filter p).Sublist vs := by
    intro r mem here
    rw [h.row_eq mem, here]
    exact kept
  rw [all_eq, all_eq]
  unfold ViolationStore.replace replaceIn
  dsimp only
  split
  · rename_i none
    rw [List.isEmpty_iff.1 none] at row
    exact sublist_drop fun r mem here => List.sublist_nil.1 (row r mem here)
  · exact sublist_putRow row

theorem flatten_filtered (p : Violation → Bool) (rows : List (String × List Violation)) :
    (((rows.map fun r => (r.1, r.2.filter (!p ·))).filter fun r => !r.2.isEmpty).map Prod.snd).flatten =
      (rows.map Prod.snd).flatten.filter (!p ·) := by
  induction rows with
  | nil => rfl
  | cons r rows ih => cases kept : r.2.filter (!p ·) <;> simp [kept, ih]

theorem all_removeWhere (s : ViolationStore) (p : Violation → Bool) :
    (s.removeWhere p).all .all = (s.all .all).filter (!p ·) := by
  rw [all_eq, all_eq]
  unfold removeWhere
  split
  · rw [byNote_notify]
    exact flatten_filtered p s.byNote.rows
  · rename_i none
    exact (List.filter_eq_self.2 fun v mem => spared_of_none none mem).symm

theorem Tidy.sublist_addOne (h : s.Tidy) (v : Violation) : (s.all .all).Sublist ((s.addOne v).all .all) := by
  have kept : ((s.ofNote v.document).filter fun _ => true).Sublist (s.ofNote v.document ++ [v]) :=
    List.filter_sublist.trans (List.sublist_append_left _ _)
  have first := h.sublist_replace kept
  rwa [List.filter_eq_self.2 fun _ _ => rfl] at first

theorem Tidy.sublist_add (h : s.Tidy) (vs : List Violation) : (s.all .all).Sublist ((s.add vs).all .all) := by
  unfold ViolationStore.add
  split
  · exact List.Sublist.refl _
  · rw [all_notify, ← all_eq]
    refine (List.foldlRecOn (motive := fun t => t.Tidy ∧ (s.all .all).Sublist (t.all .all)) vs addOne
      ⟨h, List.Sublist.refl _⟩ fun t now v _ => ?_).2
    exact ⟨now.1.replace v.document _, now.2.trans (now.1.sublist_addOne v)⟩

theorem Neat.filter_row (h : s.Neat) {r : String × List Violation} (mem : r ∈ s.byNote.rows)
    {p : Violation → Bool} (out : ∀ v, v.document = r.1 → p v = false) : r.2.filter p = [] := by
  rw [List.filter_eq_nil_iff]
  intro v inside
  rw [out v ((h.rows mem).2 v inside)]
  exact Bool.false_ne_true

theorem Neat.sublist_drop (h : s.Neat) {id : String} {p : Violation → Bool}
    (out : ∀ v, v.document = id → p v = false) :
    ((s.all .all).filter p).Sublist (s.byNote.drop id).values.flatten := by
  rw [all_eq]
  refine ViolationStore.sublist_drop fun r mem here => h.filter_row mem ?_
  rw [here]
  exact out

theorem Neat.sublist_rename (h : s.Neat) {old new : String} {p : Violation → Bool}
    (out : ∀ v, v.document = old ∨ v.document = new → p v = false) :
    ((s.all .all).filter p).Sublist ((s.rename old new).all .all) := by
  unfold ViolationStore.rename
  split
  · exact List.filter_sublist
  · rename_i vs row
    have left := (h.sublist_drop (p := p) fun v here => out v (Or.inl here)).filter p
    rw [List.filter_filter] at left
    simp only [Bool.and_self] at left
    have put : ((s.byNote.drop old).values.flatten.filter p).Sublist
        ((s.byNote.drop old).put new (vs.map fun v => { v with document := new })).values.flatten := by
      refine sublist_putRow fun r mem here => ?_
      rw [h.filter_row (List.mem_of_mem_filter mem) fun v same => out v (Or.inr (same.trans here))]
      exact List.nil_sublist _
    rw [all_notify]
    exact left.trans put

/-- What is outside of a slice of one note, as this note gets other violations. -/
theorem Neat.sublist_replace (h : s.Neat) {id : String} {vs : List Violation} {p : Violation → Bool}
    (kept : ((s.ofNote id).filter (!p ·)).Sublist vs) :
    ((s.all .all).filter fun v => !(v.document == id && p v)).Sublist (s.replace id vs).notify.byNote.values.flatten := by
  rw [byNote_notify, ← all_eq]
  refine h.tidy.sublist_replace ?_
  rw [h.filed.filter_note, if_pos rfl]
  exact kept

/-- Work leaves what is outside of its slice in order, through the whole store. -/
theorem Neat.sublist_act (h : s.Neat) (w : ViolationWork) :
    ((s.all .all).filter (!w.owns ·)).Sublist ((s.act w).all .all) := by
  cases w with
  | added vs => exact List.filter_sublist.trans (h.tidy.sublist_add vs)
  | schemaSet id schema vs =>
    simp only [ViolationStore.act, ViolationWork.owns, Bool.and_assoc, all_eq (setSchema ..)]
    exact h.sublist_replace (List.sublist_append_left _ _)
  | fieldReplaced id schema field kind vs =>
    simp only [ViolationStore.act, ViolationWork.owns, Bool.and_assoc, all_eq (ViolationStore.replaceField ..)]
    refine h.sublist_replace ?_
    simp only [isAbout, Bool.and_assoc]
    exact List.sublist_append_left _ _
  | noteRemoved id =>
    simp only [ViolationStore.act, ViolationStore.removeNote]
    split
    · rw [all_notify]
      exact h.sublist_drop fun v here => by simp [ViolationWork.owns, here]
    · exact List.filter_sublist
  | noteSchemaRemoved id schema =>
    simp only [ViolationStore.act, ViolationStore.removeNoteSchema]
    split
    · rw [all_eq (ViolationStore.notify _)]
      exact h.sublist_replace (List.Sublist.refl _)
    · exact List.filter_sublist
  | schemaRemoved schema =>
    rw [ViolationStore.act, removeSchema, all_removeWhere]
    exact List.Sublist.refl _
  | kindRemoved schema kind =>
    rw [ViolationStore.act, removeKind, all_removeWhere]
    exact List.Sublist.refl _
  | renamed old new =>
    refine h.sublist_rename fun v here => ?_
    rcases here with rfl | rfl <;> simp [ViolationWork.owns]
  | cleared => simp [ViolationWork.owns]
  | marked | batchBegun => exact List.filter_sublist
  | batchEnded =>
    rw [ViolationStore.act, all_eq, all_eq, byNote_endBatch]
    exact List.filter_sublist

theorem size_eq (s : ViolationStore) : s.size = (s.all .all).length := by
  rw [all_eq, List.length_flatten, List.sum_eq_foldl, List.foldl_map]
  rfl

theorem counts_total (s : ViolationStore) : s.counts.total = s.counts.errors + s.counts.warnings := by
  have some := List.length_filter_le (·.isWarning) (s.all .all)
  simp only [counts]
  omega

theorem Neat.exists_notes (h : s.Neat) :
    ∃ ids : List String, ids.Nodup ∧ (∀ id, id ∈ ids ↔ s.ofNote id ≠ []) ∧ s.counts.notes = ids.length :=
  ⟨s.byNote.keys, h.tidy, fun _ => h.mem_keys, (List.length_map ..).symm⟩

/-- What holds of the slices of a store, whatever is done to it next. -/
structure Sliced (s : ViolationStore) : Prop where
  rows : ∀ r ∈ s.byNote.rows, r.2 ≠ [] ∧ ∀ v ∈ r.2, v.document = r.1
  outside : ∀ w : ViolationWork, ((s.all .all).filter (!w.owns ·)).Sublist ((s.act w).all .all)
  sliced : ∀ w : ViolationWork, w.Addressed → (∀ old new, w ≠ .renamed old new) → ∀ id,
    (s.act w).ofNote id = (s.ofNote id).filter (!w.owns ·) ++ w.brings.filter (·.document == id)
  said : ∀ id schema vs, (ViolationWork.schemaSet id schema vs).Addressed →
    ((s.act (.schemaSet id schema vs)).ofNote id).filter (·.schema == schema) =
      ((s.ofNote id).filter fun v => v.schema == schema && v.kind == .duplicateValue) ++ vs
  renamed : ∀ old new id, (s.act (.renamed old new)).ofNote id =
    if s.ofNote old = [] then s.ofNote id
    else if id = new then (s.ofNote old).map fun v => { v with document := new }
    else if id = old then [] else s.ofNote id
  notes : ∃ ids : List String, ids.Nodup ∧ (∀ id, id ∈ ids ↔ s.ofNote id ≠ []) ∧ s.counts.notes = ids.length
  total : s.counts.total = s.counts.errors + s.counts.warnings ∧ s.counts.total = s.size

/-- Whatever was done to a store before, work on a slice of it changes the slice alone. -/
theorem slices_kept (listeners : List Listener) (work : List ViolationWork) (addressed : ∀ w ∈ work, w.Addressed) :
    (run { listeners } work).Sliced := by
  have neat := (Neat.empty listeners).run addressed
  exact {
    rows := fun r mem => neat.rows mem
    outside := neat.sublist_act
    sliced := fun w of stays id => neat.ofNote_act of stays id
    said := fun id schema vs of => ofSchema_setSchema _ fun v mem => (of v mem).2
    renamed := fun old new id => neat.ofNote_rename old new id
    notes := neat.exists_notes
    total := ⟨counts_total _, (size_eq _).symm⟩ }

/-- A book without a title whose number is taken. -/
def faults (id : String) : List Violation :=
  [⟨id, "books", "title", .missingRequired, "Missing required field: title", none, none⟩,
    ⟨id, "books", "isbn", .duplicateValue, "Duplicate value: isbn", some "unique value", none⟩]

def shelving : List ViolationWork :=
  [.schemaSet "Dune.md" "books" (faults "Dune.md"), .renamed "Dune.md" "Shelf/Dune.md",
    .schemaSet "Shelf/Dune.md" "books" [], .schemaRemoved "tasks"]

theorem slices_kept_shelving : (∀ w ∈ shelving, w.Addressed) ∧ (run {} shelving).Sliced ∧
    (run {} shelving).ofNote "Shelf/Dune.md" = (faults "Shelf/Dune.md").drop 1 := by
  have addressed : ∀ w ∈ shelving, w.Addressed := by simp [shelving, faults, ViolationWork.Addressed]
  exact ⟨addressed, slices_kept [] shelving addressed, by decide⟩

end VaultSchema.ViolationStore
