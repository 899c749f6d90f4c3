import VaultSchema.Note.Store
import VaultSchema.Proofs.Text.Order
import Mathlib.Data.List.Sort

set_option autoImplicit false

namespace VaultSchema.NoteStore

def Has (s : NoteStore) (d : Document) : Prop := s.find? d.id = some d

def Distinct (s : NoteStore) : Prop := (s.notes.map (·.id)).Nodup

theorem id_of_find? {s : NoteStore} {id : String} {d : Document} (h : s.find? id = some d) :
    d.id = id := by simpa using List.find?_some h

theorem mem_of_find? {s : NoteStore} {id : String} {d : Document} (h : s.find? id = some d) :
    d ∈ s.notes := List.mem_of_find?_eq_some h

theorem has_of_find? {s : NoteStore} {id : String} {d : Document} (h : s.find? id = some d) :
    s.Has d := by
  rw [Has, id_of_find? h]
  exact h

theorem eq_of_id_eq {s : NoteStore} (h : s.Distinct) {a b : Document} (ha : a ∈ s.notes)
    (hb : b ∈ s.notes) (same : a.id = b.id) : a = b := List.inj_on_of_nodup_map h ha hb same

theorem has_iff {s : NoteStore} (h : s.Distinct) {d : Document} : s.Has d ↔ d ∈ s.notes := by
  constructor
  · exact mem_of_find?
  · intro mem
    cases found : s.find? d.id with
    | none =>
      have := List.find?_eq_none.1 found d mem
      simp at this
    | some e =>
      have same := eq_of_id_eq h (mem_of_find? found) mem (id_of_find? found)
      rw [Has, found, same]

theorem find?_eq_some_iff {s : NoteStore} (h : s.Distinct) {id : String} {d : Document} :
    s.find? id = some d ↔ d ∈ s.notes ∧ d.id = id := by
  constructor
  · exact fun found => ⟨mem_of_find? found, id_of_find? found⟩
  · rintro ⟨mem, rfl⟩
    exact (has_iff h).2 mem

theorem find?_eq_none_iff {s : NoteStore} {id : String} :
    s.find? id = none ↔ ∀ d ∈ s.notes, d.id ≠ id := by
  simp [find?]

@[simp] theorem mem_listed {s : NoteStore} {d : Document} : d ∈ s.listed ↔ d ∈ s.notes := by
  simp [listed]

theorem listed_perm (s : NoteStore) : s.listed.Perm s.notes := List.mergeSort_perm _ _

theorem listed_pairwise (s : NoteStore) : s.listed.Pairwise fun a b => a.id ≤ b.id :=
  Text.mergeSort_pairwise Document.id s.notes

theorem listed_strict {s : NoteStore} (h : s.Distinct) :
    s.listed.Pairwise fun a b => a.id < b.id := by
  have nodup : (s.listed.map (·.id)).Nodup :=
    ((listed_perm s).map (fun d : Document => d.id)).nodup_iff.2 h
  have distinct : s.listed.Pairwise fun a b => a.id ≠ b.id := List.pairwise_map.1 nodup
  exact (listed_pairwise s).imp₂ (fun _ _ le ne => lt_of_le_of_ne le ne) distinct

@[simp] theorem mem_without {s : NoteStore} {id : String} {d : Document} :
    d ∈ (s.without id).notes ↔ d ∈ s.notes ∧ d.id ≠ id := by simp [without]

@[simp] theorem mem_put {s : NoteStore} {d e : Document} :
    e ∈ (s.put d).notes ↔ e = d ∨ e ∈ s.notes ∧ e.id ≠ d.id := by simp [put]

theorem find?_without (s : NoteStore) (id j : String) :
    (s.without id).find? j = if id = j then none else s.find? j := by
  unfold find? without
  rw [List.find?_filter]
  split
  · rename_i same
    subst same
    rw [List.find?_eq_none]
    intro d _
    simp
  · rename_i differ
    congr 1
    funext d
    rw [Bool.eq_iff_iff]
    simp only [bne_iff_ne, beq_iff_eq, decide_eq_true_eq, and_iff_right_iff_imp]
    rintro rfl rfl
    exact differ rfl

theorem find?_put (s : NoteStore) (d : Document) (j : String) :
    (s.put d).find? j = if d.id = j then some d else s.find? j := by
  have skip : (s.put d).find? j = if d.id = j then some d else (s.without d.id).find? j := by
    unfold put find?
    rw [List.find?_cons]
    by_cases same : d.id = j
    · simp [same]
    · have miss : (d.id == j) = false := by simp [same]
      simp [same, miss]
  rw [skip, find?_without]
  split <;> rfl

theorem Distinct.without {s : NoteStore} (h : s.Distinct) (id : String) : (s.without id).Distinct :=
  h.sublist (List.filter_sublist.map _)

theorem Distinct.put {s : NoteStore} (h : s.Distinct) (d : Document) : (s.put d).Distinct := by
  have rest : ((s.without d.id).notes.map (·.id)).Nodup := h.without d.id
  have new : d.id ∉ (s.without d.id).notes.map (·.id) := by simp
  exact List.nodup_cons.2 ⟨new, rest⟩

end VaultSchema.NoteStore
