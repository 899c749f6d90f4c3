import VaultSchema.Proofs.Index.Current
import VaultSchema.Proofs.Query.Selection

set_option autoImplicit false

namespace VaultSchema

namespace TagIndex

variable {x y : TagIndex} {s : NoteStore} {i : Scalar}

theorem Current.mem_members (h : x.Current s) {t : String} :
    i ∈ x.members t ↔ ∃ d ∈ s.notes, i = .text d.id ∧ t ∈ d.tags := by
  rw [h.coherent.mirrored, h.tags]

theorem Current.withTag_perm (hx : x.Current s) (hy : y.Current s) (tag : String) :
    (x.withTag tag).Perm (y.withTag tag) := by
  refine (List.perm_ext_iff_of_nodup (x.nodup_withTag tag) (y.nodup_withTag tag)).2 fun i => ?_
  rw [mem_withTag hx.coherent.tidy, mem_withTag hy.coherent.tidy]
  simp only [hx.mem_members, hy.mem_members]

end TagIndex

namespace Catalog

variable {x y : TagIndex} {s : NoteStore}

theorem resolve_perm (hx : x.Current s) (hy : y.Current s) (k : Condition) :
    (resolve ⟨s, x⟩ k).Perm (resolve ⟨s, y⟩ k) := by
  cases k with
  | all | folder path | below path => exact List.Perm.refl _
  | tag name => exact hx.withTag_perm hy name

/-- Of sets of candidates that differ in their order alone the same one is the smallest. -/
theorem smallest_perm {b c : Catalog} {conditions : List Condition}
    (same : ∀ k, (b.resolve k).Perm (c.resolve k)) {best best' : Option (List Scalar)}
    (start : Option.Rel List.Perm best best') :
    (b.smallest best conditions).Perm (c.smallest best' conditions) := by
  induction conditions generalizing best best' with
  | nil =>
    cases start with
    | none => exact List.Perm.refl _
    | some perm => exact perm
  | cons k rest ih =>
    have further : ∀ found found' : List Scalar, found.Perm found' →
        (if found.isEmpty then [] else b.smallest (some found) rest).Perm
          (if found'.isEmpty then [] else c.smallest (some found') rest) := by
      intro found found' perm
      rw [perm.isEmpty_eq]
      split
      · exact List.Perm.refl _
      · exact ih (.some perm)
    unfold smallest
    cases start with
    | none => exact further _ _ (same k)
    | some perm =>
      refine further _ _ ?_
      dsimp only
      rw [(same k).length_eq, perm.length_eq]
      split
      · exact same k
      · exact perm

theorem candidates_perm (hx : x.Current s) (hy : y.Current s) (q : Query) :
    (candidates ⟨s, x⟩ q).Perm (candidates ⟨s, y⟩ q) := by
  refine (List.perm_ext_iff_of_nodup (Text.nodup_distinct _) (Text.nodup_distinct _)).2 fun id => ?_
  simp only [Text.mem_distinct, List.mem_flatMap]
  refine exists_congr fun g => and_congr_right fun _ => ?_
  exact (smallest_perm (resolve_perm hx hy) .none).mem_iff

theorem select_eq_of_current (hx : x.Current s) (hy : y.Current s) (q : Query) :
    select ⟨s, x⟩ q = select ⟨s, y⟩ q := by
  have texts : ∀ i ∈ candidates ⟨s, x⟩ q, ∃ id, i = .text id :=
    candidates_texts fun _ _ k _ => resolve_texts hx.ofPaths.listsTexts k
  unfold select
  rw [TagIndex.sortMembers_perm (candidates_perm hx hy q) texts]

theorem selectFor_eq_of_current (hx : x.Current s) (hy : y.Current s) (schema : Schema) :
    selectFor ⟨s, x⟩ schema = selectFor ⟨s, y⟩ schema := by
  unfold selectFor
  simp only [select_eq_of_current hx hy]

end Catalog
end VaultSchema
