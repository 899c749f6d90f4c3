import VaultSchema.Proofs.Schema.Uniqueness

/-! Which notes share a value, said of the notes and not of what a scan has observed of them. A
report on a field of a note names the other notes with the same value, each once and in order; where
there are none there is no report. -/

set_option autoImplicit false

namespace VaultSchema

open Observation (report sharers notices isOf aim Once)

def Violation.duplicate (schema field shown note : String) (others : List String) : Violation :=
  let names := ", ".intercalate others
  ⟨note, schema, field, .duplicateValue,
    s!"Duplicate value: {field} \"{shown}\" is also used by {names}", some "unique value", some shown⟩

namespace FieldGroup

def valueIn? (g : FieldGroup) (d : Document) : Option Value :=
  match FoldedKeys.ofEntries (d.frontmatter.getD []) with
  | .error _ => none
  | .ok keys =>
    match keys.value? g.name with
    | none | some .null => none
    | some v => some v

def keyIn? (g : FieldGroup) (d : Document) : Option String :=
  (g.valueIn? d).bind fun v => v.uniqueKey.toOption

def shownIn (g : FieldGroup) (d : Document) : String :=
  ((g.valueIn? d).bind fun v => v.display.toOption).getD ""

def others (g : FieldGroup) (ds : List Document) (d : Document) : List String :=
  match g.keyIn? d with
  | none => []
  | some key => (ds.filter fun c => c.id != d.id && g.keyIn? c == some key).map (·.id)

theorem valueIn?_congr {g h : FieldGroup} (same : h.name = g.name) (d : Document) :
    h.valueIn? d = g.valueIn? d := by
  unfold valueIn?
  rw [same]

def observation? (g : FieldGroup) (d : Document) : Option Observation :=
  (g.valueIn? d).bind fun v => v.uniqueKey.toOption.map fun key => ⟨d.id, g.name, key, v⟩

theorem observation?_eq_some {g : FieldGroup} {d : Document} {o : Observation} :
    g.observation? d = some o ↔ o.note = d.id ∧ o.field = g.name ∧ g.valueIn? d = some o.value ∧
      o.value.uniqueKey.toOption = some o.key := by
  obtain ⟨note, field, key, value⟩ := o
  unfold observation?
  simp only [Option.bind_eq_some_iff, Option.map_eq_some_iff, Observation.mk.injEq]
  constructor
  · rintro ⟨v, read, k, keyed, rfl, rfl, rfl, rfl⟩
    exact ⟨rfl, rfl, read, keyed⟩
  · rintro ⟨rfl, rfl, read, keyed⟩
    exact ⟨value, read, key, keyed, rfl, rfl, rfl, rfl⟩

end FieldGroup

namespace Schema

variable {s : Schema} {ds : List Document} {d : Document} {g : FieldGroup}

theorem observations_eq (s : Schema) (d : Document) :
    s.observations d = s.uniqueGroups.filterMap (·.observation? d) := by
  unfold observations
  split
  · rename_i unread
    simp [FieldGroup.observation?, FieldGroup.valueIn?, unread]
  · rename_i keys folded
    refine List.filterMap_congr fun g _ => ?_
    unfold Observation.ofGroup? FieldGroup.observation? FieldGroup.valueIn?
    rw [folded]
    dsimp only
    cases keys.value? g.name with
    | none => rfl
    | some v =>
      by_cases null : v = .null
      · rw [null]
        rfl
      · cases keyed : v.uniqueKey <;> simp [Except.toOption, keyed]

theorem exists_observation (group : g ∈ s.uniqueGroups) {key : String} :
    (∃ o ∈ s.observations d, o.note = d.id ∧ o.field = g.name ∧ o.key = key) ↔
      g.keyIn? d = some key := by
  simp only [observations_eq, List.mem_filterMap, FieldGroup.observation?_eq_some, FieldGroup.keyIn?,
    Option.bind_eq_some_iff]
  constructor
  · rintro ⟨o, ⟨h, _, note, field, read, keyed⟩, _, named, rfl⟩
    rw [FieldGroup.valueIn?_congr (field.symm.trans named)] at read
    exact ⟨o.value, read, keyed⟩
  · rintro ⟨v, read, keyed⟩
    exact ⟨⟨d.id, g.name, key, v⟩, ⟨g, group, rfl, rfl, read, keyed⟩, rfl, rfl, rfl⟩

theorem sharers_of_note (group : g ∈ s.uniqueGroups) (d : Document) (key : String) :
    sharers (s.observations d) g.name key = if g.keyIn? d == some key then [d.id] else [] := by
  have once : Once (s.observations d) := by
    simpa using @Schema.once_observations s [d] (by simp)
  have nodup := once.nodup_sharers g.name key
  have all : ∀ m ∈ sharers (s.observations d) g.name key, m = d.id := by
    intro m mem
    obtain ⟨o, inside, rfl, _⟩ := Observation.mem_sharers.1 mem
    exact note_of_observations inside
  have among : d.id ∈ sharers (s.observations d) g.name key ↔ g.keyIn? d = some key := by
    rw [Observation.mem_sharers, exists_observation group]
  split
  · rename_i has
    have mem := among.2 (beq_iff_eq.1 has)
    rw [List.eq_replicate_of_mem all] at nodup mem ⊢
    have positive := List.length_pos_of_mem mem
    have single := List.nodup_replicate.1 nodup
    rw [List.length_replicate] at positive
    obtain one : (sharers (s.observations d) g.name key).length = 1 := by omega
    rw [one]
    rfl
  · rename_i lacks
    rw [beq_iff_eq, ← among] at lacks
    refine List.eq_nil_iff_forall_not_mem.2 fun m mem => lacks ?_
    rw [← all m mem]
    exact mem

theorem sharers_eq (group : g ∈ s.uniqueGroups) (ds : List Document) (key : String) :
    sharers (ds.flatMap s.observations) g.name key =
      (ds.filter fun c => g.keyIn? c == some key).map (·.id) := by
  induction ds with
  | nil => rfl
  | cons d rest ih =>
    have cut : sharers ((d :: rest).flatMap s.observations) g.name key =
        sharers (s.observations d) g.name key ++
          sharers (rest.flatMap s.observations) g.name key := by
      simp [sharers, List.filter_append]
    rw [cut, sharers_of_note group, ih, List.filter_cons]
    split <;> rfl

theorem others_eq (group : g ∈ s.uniqueGroups) {key : String} (has : g.keyIn? d = some key) :
    g.others ds d = (sharers (ds.flatMap s.observations) g.name key).filter (· != d.id) := by
  unfold FieldGroup.others
  rw [has, sharers_eq group, List.filter_map, List.filter_filter]
  rfl

end Schema

/-- The report on a note that is observed: nothing if it is alone with its value, else the one
violation that names all others. -/
theorem Observation.Once.report_eq {os : List Observation} (once : Once os) {o : Observation}
    (mem : o ∈ os) (schema : String) : ∃ last ∈ os, isOf o.field o.key last = true ∧
      report schema os o.note o.field =
        if (sharers os o.field o.key).filter (· != o.note) = [] then []
        else [.duplicate schema o.field last.shown o.note
          ((sharers os o.field o.key).filter (· != o.note))] := by
  have shares : o.note ∈ sharers os o.field o.key := mem_sharers.2 ⟨o, mem, rfl, rfl, rfl⟩
  have nodup := once.nodup_sharers o.field o.key
  cases latest : os.reverse.find? (isOf o.field o.key) with
  | none => exact absurd (List.find?_eq_none.1 latest o (by simp [mem])) (by simp [isOf])
  | some last =>
    have its := List.find?_some latest
    obtain ⟨field, key⟩ := isOf_iff.1 its
    refine ⟨last, by simpa using List.mem_of_find?_eq_some latest, its, ?_⟩
    rw [report_of_find? (once.find? mem), latest]
    dsimp only
    unfold notices
    rw [field, key, ← nodup.erase_eq_filter]
    have fewer := List.length_erase_of_mem shares
    by_cases alone : (sharers os o.field o.key).length ≤ 1
    · have none : (sharers os o.field o.key).erase o.note = [] :=
        List.eq_nil_of_length_eq_zero (by omega)
      rw [if_pos alone, if_pos none]
      rfl
    · have some : (sharers os o.field o.key).erase o.note ≠ [] := by
        refine List.ne_nil_of_length_pos ?_
        omega
      have own : (sharers os o.field o.key).filter (· == o.note) = [o.note] := by
        rw [List.filter_beq, List.count_eq_one_of_mem nodup shares]
        rfl
      rw [if_neg alone, if_neg some, UniqueValues.violations, List.filter_map]
      have aimed : (aim o.note o.field ∘ fun m =>
          Violation.duplicate schema o.field last.shown m
            ((sharers os o.field o.key).filter (· != m))) = fun m => m == o.note := by
        funext m
        simp [aim, Violation.duplicate]
      refine (congrArg (List.map _) ((congrArg (List.filter · _) aimed).trans own)).trans ?_
      rw [nodup.erase_eq_filter]
      rfl

theorem Observation.exists_of_mem_report {schema : String} {os : List Observation} {note field : String}
    {v : Violation} (mem : v ∈ report schema os note field) : ∃ o ∈ os, o.note = note ∧ o.field = field := by
  cases found : os.find? fun o => o.note == note && o.field == field with
  | none =>
    rw [report_of_none found] at mem
    exact absurd mem List.not_mem_nil
  | some o =>
    obtain ⟨inside, place⟩ := find?_place found
    exact ⟨o, inside, place⟩

namespace Schema

variable {s : Schema} {ds : List Document} {d : Document} {g : FieldGroup}

theorem mem_report {id field : String} {v : Violation}
    (mem : v ∈ report s.id (ds.flatMap s.observations) id field) :
    ∃ d ∈ ds, ∃ g ∈ s.uniqueGroups, d.id = id ∧ g.name = field ∧ g.keyIn? d ≠ none := by
  obtain ⟨o, inside, rfl, rfl⟩ := Observation.exists_of_mem_report mem
  obtain ⟨d, there, observed⟩ := List.mem_flatMap.1 inside
  have found := observed
  rw [observations_eq, List.mem_filterMap] at found
  obtain ⟨g, group, read⟩ := found
  obtain ⟨note, field, _⟩ := FieldGroup.observation?_eq_some.1 read
  have has := (exists_observation group).1 ⟨o, observed, note, field, rfl⟩
  exact ⟨d, there, g, group, note.symm, field.symm, by rw [has]; exact Option.some_ne_none _⟩

theorem report_eq (distinct : (ds.map (·.id)).Nodup) (mem : d ∈ ds) (group : g ∈ s.uniqueGroups) :
    ∃ last ∈ ds, g.keyIn? last = g.keyIn? d ∧
      report s.id (ds.flatMap s.observations) d.id g.name =
        if g.others ds d = [] then []
        else [.duplicate s.id g.name (g.shownIn last) d.id (g.others ds d)] := by
  cases has : g.keyIn? d with
  | none =>
    refine ⟨d, mem, has, ?_⟩
    have alone : g.others ds d = [] := by rw [FieldGroup.others, has]
    rw [if_pos alone]
    refine List.eq_nil_iff_forall_not_mem.2 fun v reported => ?_
    obtain ⟨c, there, h, _, same, field, some⟩ := mem_report reported
    obtain rfl : c = d := List.inj_on_of_nodup_map distinct there mem same
    rw [FieldGroup.keyIn?, FieldGroup.valueIn?_congr field, ← FieldGroup.keyIn?] at some
    exact some has
  | some key =>
    obtain ⟨o, observed, note, field, rfl⟩ := (exists_observation group).2 has
    have inside : o ∈ ds.flatMap s.observations := List.mem_flatMap.2 ⟨d, mem, observed⟩
    obtain ⟨last, among, same, said⟩ := (s.once_observations distinct).report_eq inside s.id
    obtain ⟨c, there, read⟩ := List.mem_flatMap.1 among
    obtain ⟨lastField, lastKey⟩ := Observation.isOf_iff.1 same
    have shared := (exists_observation group).1
      ⟨last, read, note_of_observations read, lastField.trans field, lastKey⟩
    have shown : last.shown = g.shownIn c := by
      rw [observations_eq, List.mem_filterMap] at read
      obtain ⟨h, _, read⟩ := read
      obtain ⟨_, named, value, _⟩ := FieldGroup.observation?_eq_some.1 read
      rw [FieldGroup.valueIn?_congr (named.symm.trans (lastField.trans field))] at value
      unfold Observation.shown FieldGroup.shownIn
      rw [value, Option.bind_some]
      cases last.value.display <;> rfl
    refine ⟨c, there, shared, ?_⟩
    rw [others_eq group has, ← note, ← field, said, shown]

end Schema
end VaultSchema
