import VaultSchema.Proofs.Report.Store
import Mathlib.Data.List.Perm.Basic

/-! The violations of a note cut into slices: what each schema itself says of the note, and the
reports of duplicates of each schema and field. A list is put together of its slices, so lists with
the same slices differ in the order alone. -/

set_option autoImplicit false

namespace VaultSchema.ViolationStore

/-- What a schema itself says. -/
def own (schema : String) (vs : List Violation) : List Violation := vs.filter (ownedBy schema)

def dup (schema field : String) (vs : List Violation) : List Violation :=
  vs.filter (isAbout schema field .duplicateValue)

def reports (schema : String) (v : Violation) : Bool := v.schema == schema && v.kind == .duplicateValue

/-- All but the reports of duplicates of a schema. -/
def besides (schema : String) (vs : List Violation) : List Violation := vs.filter (!reports schema ·)

theorem mem_own {schema : String} {vs : List Violation} {v : Violation} :
    v ∈ own schema vs ↔ v ∈ vs ∧ v.schema = schema ∧ v.kind ≠ .duplicateValue := by
  simp [own, ownedBy]

theorem mem_dup {schema field : String} {vs : List Violation} {v : Violation} :
    v ∈ dup schema field vs ↔
      v ∈ vs ∧ v.schema = schema ∧ v.field = field ∧ v.kind = .duplicateValue := by
  simp [dup, isAbout, and_assoc]

/-- Every violation is in one slice, so lists that share the slices for it share the violation. -/
theorem mem_of_slices {vs ws : List Violation} {v : Violation} (mem : v ∈ vs)
    (owns : own v.schema vs = own v.schema ws) (dups : dup v.schema v.field vs = dup v.schema v.field ws) :
    v ∈ ws := by
  by_cases kind : v.kind = .duplicateValue
  · have inside : v ∈ dup v.schema v.field vs := mem_dup.2 ⟨mem, rfl, rfl, kind⟩
    exact (mem_dup.1 (dups ▸ inside)).1
  · have inside : v ∈ own v.schema vs := mem_own.2 ⟨mem, rfl, kind⟩
    exact (mem_own.1 (owns ▸ inside)).1

theorem perm_of_slices {vs ws : List Violation} (owns : ∀ schema, own schema vs = own schema ws)
    (dups : ∀ schema field, dup schema field vs = dup schema field ws) : vs.Perm ws := by
  rw [List.perm_iff_count]
  intro v
  by_cases kind : v.kind = .duplicateValue
  · have same := congrArg (List.count v) (dups v.schema v.field)
    have inside : isAbout v.schema v.field .duplicateValue v = true := by simp [isAbout, kind]
    simpa only [dup, List.count_filter inside] using same
  · have same := congrArg (List.count v) (owns v.schema)
    have inside : ownedBy v.schema v = true := by simp [ownedBy, kind]
    simpa only [own, List.count_filter inside] using same

theorem own_append (schema : String) (vs ws : List Violation) :
    own schema (vs ++ ws) = own schema vs ++ own schema ws := List.filter_append ..

theorem dup_append (schema field : String) (vs ws : List Violation) :
    dup schema field (vs ++ ws) = dup schema field vs ++ dup schema field ws := List.filter_append ..

@[simp] theorem own_nil (schema : String) : own schema [] = [] := rfl

@[simp] theorem dup_nil (schema field : String) : dup schema field [] = [] := rfl

/-- Violations that a schema says of a note by itself. -/
def Stamped (document schema : String) (vs : List Violation) : Prop :=
  ∀ v ∈ vs, v.document = document ∧ v.schema = schema ∧ v.kind ≠ .duplicateValue

theorem own_stamped {document schema : String} {vs : List Violation}
    (h : Stamped document schema vs) (other : String) :
    own other vs = if schema = other then vs else [] := by
  split
  · rename_i same
    subst same
    rw [own, List.filter_eq_self]
    intro v mem
    simp [ownedBy, (h v mem).2]
  · rename_i differ
    rw [own, List.filter_eq_nil_iff]
    intro v mem
    simp [ownedBy, (h v mem).2.1, differ]

theorem dup_stamped {document schema : String} {vs : List Violation}
    (h : Stamped document schema vs) (other field : String) : dup other field vs = [] := by
  rw [dup, List.filter_eq_nil_iff]
  intro v mem
  simp [isAbout, (h v mem).2.2]

theorem dup_moved (schema field note : String) (vs : List Violation) :
    dup schema field (vs.map fun v => { v with document := note }) =
      (dup schema field vs).map fun v => { v with document := note } := by
  unfold dup
  rw [List.filter_map]
  rfl

theorem filter_apart {p q : Violation → Bool} (apart : ∀ v, p v = true → q v = false)
    (vs : List Violation) : (vs.filter (!q ·)).filter p = vs.filter p := by
  rw [List.filter_filter]
  refine List.filter_congr fun v _ => ?_
  cases inside : p v with
  | false => rfl
  | true => simp [apart v inside]

theorem filter_covered {p q : Violation → Bool} (covered : ∀ v, p v = true → q v = true)
    (vs : List Violation) : (vs.filter (!q ·)).filter p = [] := by
  rw [List.filter_filter, List.filter_eq_nil_iff]
  intro v _ both
  simp only [Bool.and_eq_true, Bool.not_eq_true'] at both
  rw [covered v both.1] at both
  exact Bool.noConfusion both.2

section conditions

variable {schema other field name : String} {v : Violation}

theorem ownedBy_apart (differ : schema ≠ other) (owned : ownedBy other v = true) :
    ownedBy schema v = false := by
  simp only [ownedBy, Bool.and_eq_true, beq_iff_eq] at owned
  simp [ownedBy, owned.1, Ne.symm differ]

theorem not_ownedBy_of_isAbout (about : isAbout other field .duplicateValue v = true) :
    ownedBy schema v = false := by
  simp only [isAbout, Bool.and_eq_true, beq_iff_eq] at about
  simp [ownedBy, about.2]

theorem isAbout_apart (differ : ¬ (schema = other ∧ name = field))
    (about : isAbout other field .duplicateValue v = true) :
    isAbout schema name .duplicateValue v = false := by
  simp only [isAbout, Bool.and_eq_true, beq_iff_eq] at about
  obtain ⟨⟨rfl, rfl⟩, kind⟩ := about
  simp only [isAbout, kind, beq_self_eq_true, Bool.and_true, Bool.and_eq_false_iff,
    beq_eq_false_iff_ne]
  by_cases same : v.schema = schema
  · exact Or.inr fun fields => differ ⟨same.symm, fields.symm⟩
  · exact Or.inl same

end conditions

theorem own_setSchema {s : ViolationStore} {id schema : String} {vs : List Violation}
    (h : Stamped id schema vs) (other j : String) :
    own other ((s.setSchema id schema vs).ofNote j) =
      if id = j ∧ schema = other then vs else own other (s.ofNote j) := by
  rw [ofNote_setSchema]
  by_cases here : id = j
  · subst here
    rw [if_pos rfl, own_append, own_stamped h]
    by_cases same : schema = other
    · subst same
      have gone := filter_covered (fun _ h => h) (p := ownedBy schema) (s.ofNote id)
      simp [own, gone]
    · have kept := filter_apart (fun v => ownedBy_apart (v := v) same) (s.ofNote id)
      simp [own, same, kept]
  · simp [here]

theorem dup_setSchema {s : ViolationStore} {id schema : String} {vs : List Violation}
    (h : Stamped id schema vs) (other field j : String) :
    dup other field ((s.setSchema id schema vs).ofNote j) = dup other field (s.ofNote j) := by
  rw [ofNote_setSchema]
  split
  · rename_i here
    subst here
    rw [dup_append, dup_stamped h, List.append_nil]
    exact filter_apart (fun _ => not_ownedBy_of_isAbout) (s.ofNote id)
  · rfl

theorem own_besides (schema other : String) (vs : List Violation) :
    own other (besides schema vs) = own other vs := by
  refine filter_apart (fun v owned => ?_) vs
  simp only [ownedBy, Bool.and_eq_true, bne_iff_ne, ne_eq] at owned
  simp [reports, owned.2]

theorem dup_besides {schema other : String} (differ : schema ≠ other) (field : String)
    (vs : List Violation) : dup other field (besides schema vs) = dup other field vs := by
  refine filter_apart (fun v about => ?_) vs
  simp only [isAbout, Bool.and_eq_true, beq_iff_eq] at about
  simp [reports, about.1.1, Ne.symm differ]

theorem besides_replaceField {s : ViolationStore} {v : Violation} (kind : v.kind = .duplicateValue)
    (j : String) :
    besides v.schema ((s.replaceField v.document v.schema v.field .duplicateValue [v]).ofNote j) =
      besides v.schema (s.ofNote j) := by
  rw [ofNote_replaceField]
  split
  · rename_i here
    subst here
    have apart : besides v.schema [v] = [] := by simp [besides, reports, kind]
    rw [besides, List.filter_append, ← besides, ← besides, apart, List.append_nil]
    refine filter_apart (fun w inside => ?_) (s.ofNote v.document)
    rw [Bool.not_eq_true', ← Bool.not_eq_true, reports, Bool.and_eq_true] at inside
    rw [← Bool.not_eq_true, isAbout, Bool.and_eq_true, Bool.and_eq_true]
    exact fun about => inside ⟨about.1.1, about.2⟩
  · rfl

theorem dup_replaceField {s : ViolationStore} {v : Violation} (kind : v.kind = .duplicateValue)
    (field j : String) :
    dup v.schema field ((s.replaceField v.document v.schema v.field .duplicateValue [v]).ofNote j) =
      if v.document = j ∧ v.field = field then [v] else dup v.schema field (s.ofNote j) := by
  rw [ofNote_replaceField]
  by_cases here : v.document = j
  · subst here
    rw [if_pos rfl, dup_append]
    by_cases same : v.field = field
    · subst same
      simp [dup, isAbout, kind]
    · have differ : ¬ (v.schema = v.schema ∧ v.field = field) := fun both => same both.2
      have kept := filter_apart (fun w => isAbout_apart (v := w) differ) (s.ofNote v.document)
      have apart : dup v.schema field [v] = [] := by simp [dup, isAbout, same]
      rw [apart, List.append_nil, dup, kept, if_neg fun both => same both.2]
      rfl
  · simp [here]

theorem besides_removeKind {s : ViolationStore} (h : s.Tidy) (schema j : String) :
    besides schema ((s.removeKind schema .duplicateValue).ofNote j) = besides schema (s.ofNote j) := by
  unfold removeKind
  rw [h.ofNote_removeWhere]
  exact filter_apart (fun v inside => Bool.not_eq_true' _ ▸ inside) (s.ofNote j)

theorem dup_removeKind {s : ViolationStore} (h : s.Tidy) (schema field j : String) :
    dup schema field ((s.removeKind schema .duplicateValue).ofNote j) = [] := by
  unfold removeKind
  rw [h.ofNote_removeWhere]
  refine filter_covered (fun v about => ?_) (s.ofNote j)
  simp only [isAbout, Bool.and_eq_true, beq_iff_eq] at about
  simp [about.1.1, about.2]

theorem own_filter_schema (schema other : String) (vs : List Violation) :
    own other (vs.filter (·.schema != schema)) = if schema = other then [] else own other vs := by
  split
  · rename_i same
    subst same
    refine filter_covered (fun v owned => ?_) vs
    simp only [ownedBy, Bool.and_eq_true] at owned
    exact owned.1
  · rename_i differ
    refine filter_apart (fun v owned => ?_) vs
    simp only [ownedBy, Bool.and_eq_true, beq_iff_eq] at owned
    simp [owned.1, Ne.symm differ]

theorem dup_filter_schema (schema other field : String) (vs : List Violation) :
    dup other field (vs.filter (·.schema != schema)) =
      if schema = other then [] else dup other field vs := by
  split
  · rename_i same
    subst same
    refine filter_covered (fun v about => ?_) vs
    simp only [isAbout, Bool.and_eq_true] at about
    exact about.1.1
  · rename_i differ
    refine filter_apart (fun v about => ?_) vs
    simp only [isAbout, Bool.and_eq_true, beq_iff_eq] at about
    simp [about.1.1, Ne.symm differ]

end VaultSchema.ViolationStore
