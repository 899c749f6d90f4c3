import VaultSchema.Proofs.Schema.Origins

set_option autoImplicit false

namespace VaultSchema

def Alone (fs : List Finding) : Prop := ∀ f ∈ fs, f.kind ≠ .duplicateValue

theorem Alone.append {fs gs : List Finding} (hf : Alone fs) (hg : Alone gs) : Alone (fs ++ gs) :=
  List.forall_mem_append.2 ⟨hf, hg⟩

namespace Registry

theorem absenceFindings_alone (g : FieldGroup) (path : String) : Alone (absenceFindings g path) := by
  unfold absenceFindings
  split
  · simp [Alone]
  · split <;> simp [Alone]

variable {r : Registry} {top : FoldedKeys} {s : Schema} {m : Entries}

/-- No check of the walk through a value knows of other notes. -/
theorem Arises.alone {stop : Stop} {f : Finding} (h : Arises r top stop f) : f.kind ≠ .duplicateValue := by
  induction h with
  | @mismatch g _ _ _ =>
    unfold Registry.mismatch
    cases g.isWarned <;> simp
  | plain _ found mem => exact (constrains_plainFindings found _ mem).not_duplicate
  | cross _ found mem => exact (constrains_crossFindings found _ mem).not_duplicate
  | element _ _ _ _ ih => exact ih
  | inside _ _ _ ih => exact ih
  | unfit _ => simp [elementMismatch]
  | entered _ _ _ ih => exact ih
  | stray found mem =>
    obtain ⟨e, _, made⟩ := Outcome.exists_of_mem_mapM found mem
    obtain ⟨key, _, made⟩ := Outcome.bind_eq_ok.1 made
    cases made
    simp
  | absent _ _ _ _ mem => exact absenceFindings_alone _ _ _ mem
  | member _ _ _ _ _ ih => exact ih

theorem groupFindings_alone {g : FieldGroup} {fs : List Finding} (found : r.groupFindings top g = .ok fs) :
    Alone fs := by
  intro f mem
  rw [groupFindings_step] at found
  obtain ⟨active, _, ⟨_, mem⟩ | ⟨v, _, found⟩⟩ := exists_of_mem_groupFindingsIn found mem
  · exact absenceFindings_alone active g.name f mem
  · exact (arises_value v found f mem).alone

theorem undeclaredKeys_alone {fs : List Finding} (found : undeclaredKeys s m = .ok fs) : Alone fs := by
  obtain ⟨names, _, found⟩ := Outcome.bind_eq_ok.1 found
  cases found
  unfold Alone
  rw [List.forall_mem_map]
  simp

theorem findings_alone {checkUnknown : Bool} {fs : List Finding} (found : r.findings s m checkUnknown = .ok fs) :
    Alone fs := by
  obtain ⟨top, _, found⟩ := Outcome.bind_eq_ok.1 found
  obtain ⟨declared, groups, found⟩ := Outcome.bind_eq_ok.1 found
  have declared : Alone declared.flatten := by
    intro f mem
    obtain ⟨own, inside, mem⟩ := List.mem_flatten.1 mem
    obtain ⟨g, _, looked⟩ := Outcome.exists_of_mem_mapM groups inside
    exact groupFindings_alone looked f mem
  cases checkUnknown with
  | false =>
    cases found
    exact declared.append (by simp [Alone])
  | true =>
    obtain ⟨unknown, looked, found⟩ := Outcome.bind_eq_ok.1 found
    cases found
    exact declared.append (undeclaredKeys_alone looked)

theorem validate_alone {document : String} {frontmatter : Option Entries} {s : Schema}
    {checkUnknown : Bool} {vs : List Violation}
    (validated : r.validate document frontmatter s checkUnknown = .ok vs) :
    ∀ v ∈ vs, v.document = document ∧ v.schema = s.id ∧ v.kind ≠ .duplicateValue := by
  obtain ⟨fs, found, validated⟩ := Outcome.bind_eq_ok.1 validated
  cases validated
  intro v mem
  obtain ⟨f, inside, rfl⟩ := List.mem_map.1 mem
  exact ⟨rfl, rfl, findings_alone found f inside⟩

end Registry
end VaultSchema
