import Mathlib
import VaultSchema.Proofs.Schema.Loading
import VaultSchema.Proofs.Value.Tame
import VaultSchema.Query.Selection

/-! What a note may hold without disturbing the engine. Where every conversion takes the values of a
note, validation, filters and the search for duplicates go through, whatever the definitions demand
of it. -/

set_option autoImplicit false

namespace VaultSchema

open Outcome

/-- What a declaration demands can be carried out: its pattern is read, or is malformed and so left out
of account, and its bounds are written. -/
structure FieldSpec.Fine (f : FieldSpec) : Prop where
  pattern : ∀ p, f.pattern? = some p → ∀ e, Pattern.read p = .error e → e = .malformed
  counts : ∀ n ∈ f.counts, Short n
  bounds : ∀ b ∈ f.bounds, b.Held

namespace Registry

theorem tame_sound : Sound (fun _ => False) Value.Tame fun f => f.Compares ∧ f.Fine where
  null := .scalar _ trivial
  item tame := Value.tame_sequence.1 tame
  entry tame := (Value.tame_mapping.1 tame).2
  key tame e mem := exists_ok_iff.1 ((Value.tame_mapping.1 tame).1 e mem).exists_spelling
  number tame := exists_ok_iff.1 tame.exists_number
  display tame := exists_ok_iff.1 tame.exists_display
  day tame date instant outside := by
    obtain ⟨d, found⟩ := tame.exists_date date instant
    simp [outside] at found
  compares fine := fine.1
  pattern fine own read other := other (fine.2.pattern _ own _ read)
  count fine own := exists_ok_iff.1 ⟨_, integerText_ok (fine.2.counts _ own)⟩
  bound fine own := exists_ok_iff.1 (Value.displayFloat_ok (fine.2.bounds _ own))

end Registry

theorem FoldedKeys.exists_ofEntries {m : Entries} (tame : (Value.mapping m).Tame) :
    ∃ keys, ofEntries m = .ok keys ∧ Registry.Keeps Value.Tame keys := by
  obtain ⟨keys, folded⟩ := exists_ok_of_within (Registry.within_ofValue.1 (Registry.tame_sound.folded tame))
  exact ⟨keys, folded, Registry.tame_sound.keeps tame (Check.ofValue_eq_ok.2 folded)⟩

theorem PropertyFilter.exists_conditionsHold {keys : FoldedKeys} (keeps : Registry.Keeps Value.Tame keys)
    (conditions : List PropertyCondition) : ∃ verdict, conditionsHold keys conditions = .ok verdict := by
  induction conditions with
  | nil => exact ⟨true, rfl⟩
  | cons c rest ih =>
    unfold conditionsHold
    cases found : keys.value? c.property with
    | none => exact ⟨false, rfl⟩
    | some v =>
      obtain ⟨holds, evaluated⟩ :=
        exists_ok_of_within (Registry.evaluate_within Registry.tame_sound (keeps _ v found) c.operator c.value)
      obtain ⟨verdict, further⟩ := ih
      simp only [evaluated]
      cases holds with
      | false => exact ⟨false, rfl⟩
      | true => exact ⟨verdict, further⟩

theorem PropertyFilter.exists_holds (f : PropertyFilter) {d : Document} (tame : (Value.mapping d.entries).Tame) :
    ∃ verdict, f.holds d = .ok verdict := by
  obtain ⟨keys, folded, keeps⟩ := FoldedKeys.exists_ofEntries tame
  obtain ⟨verdict, conditions⟩ := exists_conditionsHold keeps f.conditions
  unfold holds
  simp only [folded, bind, Except.bind]
  repeat' split
  all_goals first | exact ⟨_, rfl⟩ | exact ⟨_, conditions⟩

namespace UniqueValues

theorem exists_observeField (seen : UniqueValues) (schema document field : String) {v : Value} (tame : v.Tame)
    (sortable : v.MembersSortable) : ∃ vs, (seen.observeField schema document field v).2 = .ok vs := by
  obtain ⟨key, read⟩ := tame.exists_uniqueKey sortable
  obtain ⟨text, shown⟩ := tame.exists_display
  unfold observeField
  simp only [read, shown]
  repeat' split
  all_goals exact ⟨_, rfl⟩

theorem exists_observeFields (seen : UniqueValues) (schema document : String) {keys : FoldedKeys}
    (keeps : ∀ name v, keys.value? name = some v → v.Tame ∧ v.MembersSortable) (groups : List FieldGroup) :
    ∃ vs, (seen.observeFields schema document keys groups).2 = .ok vs := by
  induction groups generalizing seen with
  | nil => exact ⟨[], rfl⟩
  | cons g rest ih =>
    unfold observeFields
    split
    · exact ih seen
    · exact ih seen
    · rename_i v _ found
      obtain ⟨tame, sortable⟩ := keeps _ v found
      obtain ⟨first, observed⟩ := exists_observeField seen schema document g.name tame sortable
      split
      · rename_i faults
        simp [faults] at observed
      · rename_i next _ _
        obtain ⟨others, further⟩ := ih next
        exact ⟨_, by simp only [further]; rfl⟩

theorem exists_observe (seen : UniqueValues) (s : Schema) {d : Document} (tame : (Value.mapping d.entries).Tame)
    (sortable : ∀ e ∈ d.entries, e.2.MembersSortable) :
    ∃ vs, (seen.observe s d.id d.frontmatter).2 = .ok vs := by
  obtain ⟨keys, folded, keeps⟩ := FoldedKeys.exists_ofEntries tame
  unfold observe
  split
  · exact ⟨_, rfl⟩
  · exact ⟨_, rfl⟩
  · rw [← Document.entries, folded]
    refine exists_observeFields seen s.id d.id (fun name v found => ⟨keeps name v found, ?_⟩) _
    obtain ⟨e, mem, rfl⟩ := FoldedKeys.exists_of_value? folded found
    exact sortable e mem

end UniqueValues

namespace Definitions

/-- Definitions that load go through every note whose values are tame: its validation, each filter, and,
as long as the members of its sequences can be put in order, the search for duplicates. -/
theorem check_tolerant {d : Definitions} {set : SchemaSet} (checked : d.check = .ok set)
    (fine : ∀ f ∈ d.fields, f.Fine) {note : Document} (tame : (Value.mapping note.entries).Tame) :
    (∀ f : PropertyFilter, ∃ verdict, f.holds note = .ok verdict) ∧
      ∀ s ∈ set.schemas,
        (∀ checkUnknown, ∃ vs, set.registry.validate note.id note.frontmatter s checkUnknown = .ok vs) ∧
        ((∀ e ∈ note.entries, e.2.MembersSortable) →
          ∀ seen : UniqueValues, ∃ vs, (seen.observe s note.id note.frontmatter).2 = .ok vs) := by
  obtain ⟨wf, rfl⟩ := check_eq_ok_iff.1 checked
  refine ⟨fun f => f.exists_holds tame, fun s schema => ⟨fun checkUnknown => ?_, fun sortable seen => ?_⟩⟩
  · have both (f : FieldSpec) (mem : f ∈ d.fields) := And.intro (wf.comparisons f mem) (fine f mem)
    refine exists_ok_of_within (Registry.validate_within Registry.tame_sound ?_ ?_ tame note.id checkUnknown)
    · exact fun t type f mem => both f (mem_fields_of_type type mem)
    · obtain ⟨s, written, rfl⟩ := List.mem_map.1 schema
      exact fun f mem => both f (mem_fields_of_schema written mem)
  · exact seen.exists_observe s tame sortable

/-- Titles are asked for by what is recorded under `read`. -/
def logbook : Definitions where
  schemas := [{
    id := "books", query := "*"
    fields := [
      { name := "title", type := .primitive .string, conditions := [⟨"read", .equals, "yes"⟩] },
      { name := "due", type := .primitive .date, dateConstraints := some ⟨some "2000-01-01", none⟩ },
      { name := "isbn", type := .primitive .array, unique := true }] }]

def pages (day : Scalar) : Document :=
  ⟨"Dune.md", some [(.text "read", .mapping [(day, .int 100)]), (.text "due", .text "2024-02-01"),
    (.text "isbn", .list [.int 9780441172719, .mapping [(.text "x", .null)]])], [], none, none⟩

theorem check_logbook : logbook.check = .ok ⟨logbook.schemas.map named, ⟨logbook.types⟩⟩ := by rfl

theorem check_tolerant_logbook :
    ∃ set, logbook.check = .ok set ∧ (∀ f ∈ logbook.fields, f.Fine) ∧
      (Value.mapping (pages (.text "2024-01-01")).entries).Tame ∧ ∀ s ∈ set.schemas,
        (∃ vs, set.registry.validate "Dune.md" (pages (.text "2024-01-01")).frontmatter s true = .ok vs) ∧
          ∀ seen : UniqueValues,
            ∃ vs, (seen.observe s "Dune.md" (pages (.text "2024-01-01")).frontmatter).2 = .ok vs := by
  have fine : ∀ f ∈ logbook.fields, f.Fine := by
    intro f mem
    constructor <;> (fin_cases mem <;> simp [FieldSpec.pattern?, FieldSpec.counts, FieldSpec.bounds])
  have tame : (Value.mapping (pages (.text "2024-01-01")).entries).Tame := by
    have nearest : (Int.natAbs 9780441172719) < Binary64.overflowInteger := by decide +kernel
    simpa [pages, Document.entries, Scalar.IsKey, Scalar.Tame] using ⟨by decide +kernel, nearest⟩
  obtain ⟨_, goes⟩ := check_tolerant check_logbook fine tame
  refine ⟨_, check_logbook, fine, tame, fun s schema => ?_⟩
  obtain ⟨validates, observes⟩ := goes s schema
  refine ⟨validates true, observes ?_⟩
  have single : (Value.mapping [(.text "x", .null)]).Sortable := .mapping _ (.inl le_rfl) (by simpa using .scalar _)
  simp [pages, Document.entries, Value.MembersSortable, single, Value.Sortable.scalar]

/-- A day as a key has no text in JSON, and the condition that shows the mapping faults. -/
theorem dated_key_faults :
    ∃ set, logbook.check = .ok set ∧ ∃ s ∈ set.schemas,
      set.registry.validate "Dune.md" (pages (.date ⟨2024, 1, 1, by decide⟩)).frontmatter s false =
        .error (.comparison (.value .keyWithoutText)) := by
  refine ⟨_, check_logbook, _, .head _, ?_⟩
  cbv

end Definitions
end VaultSchema
