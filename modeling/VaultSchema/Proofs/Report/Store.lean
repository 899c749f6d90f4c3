import VaultSchema.Report.ViolationStore
import VaultSchema.Proofs.Table

/-! What each change of a violation store does to the violations of each note. Batches and listeners
do not touch them. The bulk changes go through the rows of the table, so for them every note must
have one row. -/

set_option autoImplicit false

namespace VaultSchema.ViolationStore

def Tidy (s : ViolationStore) : Prop := s.byNote.keys.Nodup

def Filed (s : ViolationStore) : Prop := ∀ id, ∀ v ∈ s.ofNote id, v.document = id

@[simp] theorem byNote_notify (s : ViolationStore) : s.notify.byNote = s.byNote := by
  unfold notify
  split <;> rfl

@[simp] theorem byNote_beginBatch (s : ViolationStore) : s.beginBatch.byNote = s.byNote := rfl

@[simp] theorem byNote_endBatch (s : ViolationStore) : s.endBatch.byNote = s.byNote := by
  unfold endBatch
  split
  · rfl
  · split
    · rw [byNote_notify]
    · rfl
  · rfl

@[simp] theorem byNote_mark (s : ViolationStore) : s.mark.byNote = s.byNote := rfl

theorem ofNote_congr {s t : ViolationStore} (h : s.byNote = t.byNote) (id : String) :
    s.ofNote id = t.ofNote id := by rw [ofNote, ofNote, h]

@[simp] theorem ofNote_notify (s : ViolationStore) (id : String) : s.notify.ofNote id = s.ofNote id :=
  ofNote_congr (byNote_notify s) id

@[simp] theorem ofNote_beginBatch (s : ViolationStore) (id : String) :
    s.beginBatch.ofNote id = s.ofNote id := rfl

@[simp] theorem ofNote_endBatch (s : ViolationStore) (id : String) :
    s.endBatch.ofNote id = s.ofNote id := ofNote_congr (byNote_endBatch s) id

@[simp] theorem ofNote_mark (s : ViolationStore) (id : String) : s.mark.ofNote id = s.ofNote id := rfl

@[simp] theorem ofNote_clear (s : ViolationStore) (id : String) : s.clear.ofNote id = [] := by
  simp [clear, ofNote]

@[simp] theorem ofNote_replace (s : ViolationStore) (id : String) (vs : List Violation) (j : String) :
    (s.replace id vs).ofNote j = if id = j then vs else s.ofNote j := by
  unfold replace replaceIn ofNote
  cases vs with
  | nil =>
    simp only [List.isEmpty_nil, if_true, Table.get?_drop]
    split <;> rfl
  | cons v vs =>
    simp only [List.isEmpty_cons, Bool.false_eq_true, if_false, Table.get?_put]
    split <;> rfl

@[simp] theorem ofNote_setSchema (s : ViolationStore) (id schema : String) (vs : List Violation)
    (j : String) : (s.setSchema id schema vs).ofNote j =
      if id = j then (s.ofNote id).filter (!ownedBy schema ·) ++ vs else s.ofNote j := by
  simp [setSchema]

@[simp] theorem ofNote_replaceField (s : ViolationStore) (id schema field : String)
    (kind : ViolationKind) (vs : List Violation) (j : String) :
    (s.replaceField id schema field kind vs).ofNote j =
      if id = j then (s.ofNote id).filter (!isAbout schema field kind ·) ++ vs else s.ofNote j := by
  simp [replaceField]

@[simp] theorem ofNote_removeNote (s : ViolationStore) (id j : String) :
    (s.removeNote id).ofNote j = if id = j then [] else s.ofNote j := by
  unfold removeNote Table.has
  cases row : s.byNote.get? id with
  | none =>
    by_cases same : id = j
    · subst same
      simp [ofNote, row]
    · simp [same]
  | some vs =>
    simp only [Option.isSome_some, if_true, ofNote_notify]
    unfold ofNote
    rw [Table.get?_drop]
    split <;> rfl

@[simp] theorem ofNote_removeNoteSchema (s : ViolationStore) (id schema j : String) :
    (s.removeNoteSchema id schema).ofNote j =
      if id = j then (s.ofNote id).filter (·.schema != schema) else s.ofNote j := by
  unfold removeNoteSchema
  split
  · simp
  · rename_i none
    split
    · rename_i same
      subst same
      symm
      rw [List.filter_eq_self]
      intro v mem
      simp only [List.any_eq_true, beq_iff_eq, not_exists, not_and] at none
      simpa using none v mem
    · rfl

/-- What is known at the new path goes, if there is anything to take its place. -/
theorem ofNote_rename_has (s : ViolationStore) (old new j : String) : (s.rename old new).ofNote j =
    if s.byNote.has old = true then
      if new = j then (s.ofNote old).map fun v => { v with document := new }
      else if old = j then [] else s.ofNote j
    else s.ofNote j := by
  unfold rename Table.has
  cases row : s.byNote.get? old with
  | none => simp
  | some vs =>
    have there : s.ofNote old = vs := by simp [ofNote, row]
    rw [ofNote_notify, there, Option.isSome_some, if_pos rfl]
    unfold ofNote
    rw [Table.get?_put, Table.get?_drop]
    split
    · rfl
    · split <;> rfl

theorem ofNote_rename {s : ViolationStore} {new : String} (unused : s.ofNote new = [])
    (old j : String) : (s.rename old new).ofNote j =
      if new = j then (s.ofNote old).map fun v => { v with document := new }
      else if old = j then [] else s.ofNote j := by
  rw [ofNote_rename_has]
  split
  · rfl
  · rename_i none
    have gone : s.ofNote old = [] := by
      rw [Table.has, Bool.not_eq_true, Option.isSome_eq_false_iff, Option.isNone_iff_eq_none] at none
      rw [ofNote, none]
      rfl
    rw [gone]
    by_cases toNew : new = j
    · subst toNew
      rw [if_pos rfl, unused]
      rfl
    · rw [if_neg toNew]
      split
      · rename_i fromOld
        rw [← fromOld, gone]
      · rfl

theorem ofNote_addOne (s : ViolationStore) (v : Violation) (j : String) :
    (s.addOne v).ofNote j = s.ofNote j ++ [v].filter (·.document == j) := by
  unfold addOne
  rw [ofNote_replace]
  by_cases same : v.document = j
  · subst same
    simp
  · simp [same]

theorem ofNote_foldl_addOne (vs : List Violation) (s : ViolationStore) (j : String) :
    (vs.foldl addOne s).ofNote j = s.ofNote j ++ vs.filter (·.document == j) := by
  induction vs generalizing s with
  | nil => simp
  | cons v vs ih =>
    rw [List.foldl_cons, ih, ofNote_addOne, List.append_assoc, ← List.filter_append]
    rfl

@[simp] theorem ofNote_add (s : ViolationStore) (vs : List Violation) (j : String) :
    (s.add vs).ofNote j = s.ofNote j ++ vs.filter (·.document == j) := by
  unfold add
  split
  · rename_i none
    simp [List.isEmpty_iff.1 none]
  · rw [ofNote_notify, ofNote_foldl_addOne]

theorem Tidy.congr {s t : ViolationStore} (h : s.Tidy) (same : t.byNote = s.byNote) : t.Tidy := by
  rw [Tidy, same]
  exact h

namespace Tidy

variable {s : ViolationStore}

theorem notify (h : s.Tidy) : s.notify.Tidy := h.congr (byNote_notify s)

theorem beginBatch (h : s.Tidy) : s.beginBatch.Tidy := h

theorem endBatch (h : s.Tidy) : s.endBatch.Tidy := h.congr (byNote_endBatch s)

theorem replace (h : s.Tidy) (id : String) (vs : List Violation) : (s.replace id vs).Tidy := by
  unfold Tidy ViolationStore.replace replaceIn
  dsimp only
  split
  · exact Table.nodup_drop h id
  · exact Table.nodup_put h id vs

theorem setSchema (h : s.Tidy) (id schema : String) (vs : List Violation) :
    (s.setSchema id schema vs).Tidy := (h.replace _ _).notify

theorem replaceField (h : s.Tidy) (id schema field : String) (kind : ViolationKind)
    (vs : List Violation) : (s.replaceField id schema field kind vs).Tidy := (h.replace _ _).notify

theorem removeNote (h : s.Tidy) (id : String) : (s.removeNote id).Tidy := by
  unfold ViolationStore.removeNote
  split
  · exact notify (s := { s with byNote := s.byNote.drop id }) (Table.nodup_drop h id)
  · exact h

theorem removeNoteSchema (h : s.Tidy) (id schema : String) : (s.removeNoteSchema id schema).Tidy := by
  unfold ViolationStore.removeNoteSchema
  split
  · exact (h.replace _ _).notify
  · exact h

theorem removeWhere (h : s.Tidy) (p : Violation → Bool) : (s.removeWhere p).Tidy := by
  unfold ViolationStore.removeWhere
  split
  · refine notify (s := { s with byNote := ⟨_⟩ }) ?_
    unfold Tidy Table.keys
    refine List.Nodup.sublist ((List.filter_sublist).map Prod.fst) ?_
    rw [List.map_map]
    exact h
  · exact h

theorem rename (h : s.Tidy) (old new : String) : (s.rename old new).Tidy := by
  unfold ViolationStore.rename
  split
  · exact h
  · exact notify (s := { s with byNote := _ }) (Table.nodup_put (Table.nodup_drop h old) new _)

theorem add (h : s.Tidy) (vs : List Violation) : (s.add vs).Tidy := by
  unfold ViolationStore.add
  split
  · exact h
  · exact (List.foldlRecOn vs addOne h fun _ h v _ => h.replace v.document _).notify

end Tidy

theorem tidy_clear (s : ViolationStore) : s.clear.Tidy := by
  refine Tidy.notify (s := { s with byNote := {} }) ?_
  simp [Tidy, Table.keys]

theorem Tidy.mem_values {s : ViolationStore} (h : s.Tidy) {v : Violation} :
    v ∈ s.byNote.values.flatten ↔ ∃ id, v ∈ s.ofNote id := by
  rw [List.mem_flatten]
  constructor
  · rintro ⟨vs, row, mem⟩
    obtain ⟨id, found⟩ := (Table.mem_values h).1 row
    refine ⟨id, ?_⟩
    rw [ofNote, found]
    exact mem
  · rintro ⟨id, mem⟩
    unfold ofNote at mem
    cases found : s.byNote.get? id with
    | none => simp [found] at mem
    | some vs =>
      rw [found] at mem
      exact ⟨vs, (Table.mem_values h).2 ⟨id, found⟩, mem⟩

theorem Tidy.mem_ofSchema {s : ViolationStore} (h : s.Tidy) {v : Violation} {schema : String} :
    v ∈ s.ofSchema schema ↔ v.schema = schema ∧ ∃ id, v ∈ s.ofNote id := by
  unfold ofSchema
  rw [List.mem_filter, h.mem_values]
  simp [and_comm]

theorem row_filtered (p : Violation → Bool) (j : String) {rows : List (String × List Violation)}
    (distinct : (rows.map Prod.fst).Nodup) :
    ((((rows.map fun r => (r.1, r.2.filter (!p ·))).filter fun r => !r.2.isEmpty).find?
        fun r => r.1 = j).map Prod.snd).getD [] =
      (((rows.find? fun r => r.1 = j).map Prod.snd).getD []).filter (!p ·) := by
  induction rows with
  | nil => rfl
  | cons r rows ih =>
    obtain ⟨new, distinct⟩ := List.nodup_cons.1 distinct
    by_cases same : r.1 = j
    · subst same
      -- An emptied row is dropped, and no later row has its path.
      have later : (((rows.map fun r => (r.1, r.2.filter (!p ·))).filter
          fun r => !r.2.isEmpty).find? fun q => q.1 = r.1) = none := by
        rw [List.find?_eq_none]
        intro q mem
        obtain ⟨before, inside, rfl⟩ := List.mem_map.1 (List.mem_of_mem_filter mem)
        simpa using fun same => new (List.mem_map.2 ⟨before, inside, same⟩)
      cases kept : r.2.filter (!p ·) with
      | nil => simp [kept, later]
      | cons v vs => simp [kept]
    · cases kept : (r.2.filter (!p ·)).isEmpty with
      | true => simpa [kept, same] using ih distinct
      | false => simpa [kept, same] using ih distinct

theorem spared_of_none {s : ViolationStore} {p : Violation → Bool}
    (none : ¬ (s.byNote.values.any fun vs => vs.any p) = true) {v : Violation}
    (mem : v ∈ s.byNote.values.flatten) : (!p v) = true := by
  obtain ⟨vs, row, mem⟩ := List.mem_flatten.1 mem
  simp only [List.any_eq_true, not_exists, not_and] at none
  simpa using none vs row v mem

theorem Tidy.ofNote_removeWhere {s : ViolationStore} (h : s.Tidy) (p : Violation → Bool)
    (j : String) : (s.removeWhere p).ofNote j = (s.ofNote j).filter (!p ·) := by
  unfold ViolationStore.removeWhere
  split
  · rw [ofNote_notify]
    exact row_filtered p j h
  · rename_i none
    refine (List.filter_eq_self.2 fun v mem => ?_).symm
    exact spared_of_none none (h.mem_values.2 ⟨j, mem⟩)

theorem Filed.of_new {s t : ViolationStore} (h : s.Filed)
    (new : ∀ id, ∀ v ∈ t.ofNote id, v ∈ s.ofNote id ∨ v.document = id) : t.Filed := by
  intro id v mem
  rcases new id v mem with old | filed
  · exact h id v old
  · exact filed

theorem Filed.congr {s t : ViolationStore} (h : s.Filed) (same : t.byNote = s.byNote) : t.Filed :=
  h.of_new fun id v mem => Or.inl (by rwa [← ofNote_congr same])

theorem filed_clear (s : ViolationStore) : s.clear.Filed := by
  intro id v mem
  simp at mem

namespace Filed

variable {s : ViolationStore}

theorem replace (h : s.Filed) {id : String} {vs : List Violation} (filed : ∀ v ∈ vs, v.document = id) :
    (s.replace id vs).Filed := by
  refine h.of_new fun j v mem => ?_
  rw [ofNote_replace] at mem
  split at mem
  · rename_i here
    subst here
    exact Or.inr (filed v mem)
  · exact Or.inl mem

theorem kept_append (h : s.Filed) {id : String} {vs : List Violation} (filed : ∀ v ∈ vs, v.document = id)
    (p : Violation → Bool) : ∀ v ∈ (s.ofNote id).filter p ++ vs, v.document = id := by
  intro v mem
  rcases List.mem_append.1 mem with mem | mem
  · exact h id v (List.mem_of_mem_filter mem)
  · exact filed v mem

theorem setSchema (h : s.Filed) {id schema : String} {vs : List Violation}
    (filed : ∀ v ∈ vs, v.document = id) : (s.setSchema id schema vs).Filed :=
  (h.replace (h.kept_append filed _)).congr (byNote_notify _)

theorem replaceField (h : s.Filed) {id schema field : String} {kind : ViolationKind} {vs : List Violation}
    (filed : ∀ v ∈ vs, v.document = id) : (s.replaceField id schema field kind vs).Filed :=
  (h.replace (h.kept_append filed _)).congr (byNote_notify _)

theorem removeNote (h : s.Filed) (id : String) : (s.removeNote id).Filed := by
  refine h.of_new fun j v mem => ?_
  rw [ofNote_removeNote] at mem
  split at mem
  · cases mem
  · exact Or.inl mem

theorem removeNoteSchema (h : s.Filed) (id schema : String) : (s.removeNoteSchema id schema).Filed := by
  refine h.of_new fun j v mem => ?_
  rw [ofNote_removeNoteSchema] at mem
  split at mem
  · rename_i here
    subst here
    exact Or.inl (List.mem_of_mem_filter mem)
  · exact Or.inl mem

theorem removeWhere (h : s.Filed) (tidy : s.Tidy) (p : Violation → Bool) : (s.removeWhere p).Filed := by
  refine h.of_new fun j v mem => ?_
  rw [tidy.ofNote_removeWhere] at mem
  exact Or.inl (List.mem_of_mem_filter mem)

theorem rename (h : s.Filed) (old new : String) : (s.rename old new).Filed := by
  refine h.of_new fun j v mem => ?_
  rw [ofNote_rename_has] at mem
  split at mem
  · split at mem
    · rename_i here
      subst here
      obtain ⟨w, _, rfl⟩ := List.mem_map.1 mem
      exact Or.inr rfl
    · split at mem
      · cases mem
      · exact Or.inl mem
  · exact Or.inl mem

theorem add (h : s.Filed) (vs : List Violation) : (s.add vs).Filed := by
  refine h.of_new fun j v mem => ?_
  rw [ofNote_add] at mem
  rcases List.mem_append.1 mem with mem | mem
  · exact Or.inl mem
  · exact Or.inr (by simpa using (List.mem_filter.1 mem).2)

end Filed

end VaultSchema.ViolationStore
