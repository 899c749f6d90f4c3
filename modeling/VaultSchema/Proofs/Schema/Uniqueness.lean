import VaultSchema.Schema.Uniqueness
import VaultSchema.Note.Document
import VaultSchema.Proofs.Outcome
import VaultSchema.Proofs.Text.Order
import Mathlib.Data.List.Find
import Mathlib.Data.List.Nodup

/-! The reports of duplicates that come of a series of observations, said at once: a note is
reported for a field when others have the value that it has, and the report names them all. -/

set_option autoImplicit false

namespace VaultSchema

/-- A note has a value in a field that is to be unique. -/
structure Observation where
  note : String
  field : String
  key : String
  value : Value

namespace Observation

def isOf (field key : String) (o : Observation) : Bool := o.field == field && o.key == key

def shown (o : Observation) : String :=
  match o.value.display with
  | .ok text => text
  | .error _ => ""

def sharers (os : List Observation) (field key : String) : List String :=
  (os.filter (isOf field key)).map (·.note)

/-- What an observed value makes be issued: nothing if no other note has it. -/
def notices (schema : String) (os : List Observation) (o : Observation) : List Violation :=
  let members := sharers os o.field o.key
  if members.length ≤ 1 then [] else UniqueValues.violations schema o.field o.shown members

/-- All that a series of observations after others makes be issued. -/
def issues (schema : String) (before : List Observation) : List Observation → List Violation
  | [] => []
  | o :: rest => notices schema (before ++ [o]) o ++ issues schema (before ++ [o]) rest

def aim (note field : String) (v : Violation) : Bool := v.document == note && v.field == field

/-- The report on a field of a note. The last note that has the value gives the text of it. -/
def report (schema : String) (os : List Observation) (note field : String) : List Violation :=
  match os.find? fun o => o.note == note && o.field == field with
  | none => []
  | some o =>
    match os.reverse.find? (isOf field o.key) with
    | none => []
    | some last => (notices schema os last).filter (aim note field)

/-- No note is observed twice in one field. -/
def Once (os : List Observation) : Prop := (os.map fun o => (o.note, o.field)).Nodup

theorem Once.eq {os : List Observation} (once : Once os) {a b : Observation} (ha : a ∈ os)
    (hb : b ∈ os) (note : a.note = b.note) (field : a.field = b.field) : a = b :=
  List.inj_on_of_nodup_map once ha hb (by rw [note, field])

theorem mem_sharers {os : List Observation} {field key note : String} :
    note ∈ sharers os field key ↔ ∃ o ∈ os, o.note = note ∧ o.field = field ∧ o.key = key := by
  simp only [sharers, isOf, List.mem_map, List.mem_filter, Bool.and_eq_true, beq_iff_eq]
  constructor
  · rintro ⟨o, ⟨mem, field, key⟩, note⟩
    exact ⟨o, mem, note, field, key⟩
  · rintro ⟨o, mem, note, field, key⟩
    exact ⟨o, ⟨mem, field, key⟩, note⟩

theorem Once.nodup_sharers {os : List Observation} (once : Once os) (field key : String) :
    (sharers os field key).Nodup := by
  unfold sharers
  refine List.Nodup.map_on ?_ ((List.Nodup.of_map _ once).filter _)
  intro a ha b hb note
  simp only [List.mem_filter, isOf, Bool.and_eq_true, beq_iff_eq] at ha hb
  exact once.eq ha.1 hb.1 note (ha.2.1.trans hb.2.1.symm)

theorem mem_notices {schema : String} {os : List Observation} {o : Observation} {v : Violation}
    (mem : v ∈ notices schema os o) : v.schema = schema ∧ v.field = o.field ∧
      v.kind = .duplicateValue ∧ v.document ∈ sharers os o.field o.key := by
  unfold notices UniqueValues.violations at mem
  dsimp only at mem
  split at mem
  · simp at mem
  · obtain ⟨m, inside, rfl⟩ := List.mem_map.1 mem
    exact ⟨rfl, rfl, rfl, inside⟩

theorem notices_ne_nil {schema : String} {os : List Observation} {o : Observation} {note : String}
    (several : 1 < (sharers os o.field o.key).length) (mem : note ∈ sharers os o.field o.key) :
    (notices schema os o).filter (aim note o.field) ≠ [] := by
  unfold notices UniqueValues.violations
  rw [if_neg (by omega), ne_eq, List.filter_eq_nil_iff]
  intro none
  have := none _ (List.mem_map.2 ⟨note, mem, rfl⟩)
  simp [aim] at this

theorem Once.length_notices {os : List Observation} (once : Once os) (schema : String)
    (o : Observation) (note field : String) :
    ((notices schema os o).filter (aim note field)).length ≤ 1 := by
  unfold notices UniqueValues.violations
  dsimp only
  split
  · simp
  · rw [List.filter_map, List.length_map]
    have few := List.nodup_iff_count_le_one.1 (once.nodup_sharers o.field o.key) note
    rw [List.count, List.countP_eq_length_filter] at few
    refine Nat.le_trans (List.Sublist.length_le ?_) few
    refine List.monotone_filter_right _ fun m => ?_
    simp only [Function.comp, aim, Bool.and_eq_true]
    exact fun both => both.1

theorem one_lt_length_sharers {os : List Observation} {a b : Observation}
    (ha : a ∈ os) (hb : b ∈ os) (field : a.field = b.field) (key : a.key = b.key)
    (differ : a.note ≠ b.note) : 1 < (sharers os b.field b.key).length := by
  have ha : a.note ∈ sharers os b.field b.key := mem_sharers.2 ⟨a, ha, rfl, field, key⟩
  have hb : b.note ∈ sharers os b.field b.key := mem_sharers.2 ⟨b, hb, rfl, rfl, rfl⟩
  cases members : sharers os b.field b.key with
  | nil => simp [members] at ha
  | cons m rest =>
    cases rest with
    | nil =>
      simp only [members, List.mem_singleton] at ha hb
      exact (differ (ha.trans hb.symm)).elim
    | cons _ _ => simp

theorem sharers_filter {os : List Observation} {field key : String} {p : Observation → Bool}
    (kept : ∀ o ∈ os, isOf field key o = true → p o = true) :
    sharers (os.filter p) field key = sharers os field key := by
  unfold sharers
  rw [List.filter_filter]
  congr 1
  refine List.filter_congr fun o mem => ?_
  cases inside : isOf field key o with
  | false => rfl
  | true => simp [kept o mem inside]

theorem isOf_iff {field key : String} {o : Observation} :
    isOf field key o = true ↔ o.field = field ∧ o.key = key := by simp [isOf]

theorem find?_place {os : List Observation} {note field : String} {o : Observation}
    (found : os.find? (fun o => o.note == note && o.field == field) = some o) :
    o ∈ os ∧ o.note = note ∧ o.field = field := by
  have place := List.find?_some found
  simp only [Bool.and_eq_true, beq_iff_eq] at place
  exact ⟨List.mem_of_find?_eq_some found, place⟩

theorem Once.find? {os : List Observation} (once : Once os) {q : Observation} (mem : q ∈ os) :
    os.find? (fun p => p.note == q.note && p.field == q.field) = some q := by
  cases first : os.find? fun p => p.note == q.note && p.field == q.field with
  | none => simpa using List.find?_eq_none.1 first q mem
  | some p =>
    obtain ⟨among, note, field⟩ := find?_place first
    rw [once.eq among mem note field]

theorem notices_eq_nil {schema : String} {os : List Observation} {o : Observation}
    {note field : String} (none : ∀ q ∈ os, q.note = note → q.field = field → isOf o.field o.key q = false) :
    (notices schema os o).filter (aim note field) = [] := by
  rw [List.filter_eq_nil_iff]
  intro v mem aimed
  simp only [aim, Bool.and_eq_true, beq_iff_eq] at aimed
  obtain ⟨_, vField, _, shares⟩ := mem_notices mem
  obtain ⟨q, inside, qNote, qField, qKey⟩ := mem_sharers.1 shares
  have apart := none q inside (qNote.trans aimed.1) (qField.trans (vField.symm.trans aimed.2))
  rw [isOf_iff.2 ⟨qField, qKey⟩] at apart
  cases apart

theorem getLast?_short {vs other : List Violation} (short : vs.length ≤ 1)
    (empty : vs = [] → other = []) : (vs.getLast?.map fun v => [v]).getD other = vs := by
  match vs, short with
  | [], _ => simpa using empty rfl
  | [v], _ => rfl

theorem report_of_find? {schema : String} {os : List Observation} {note field : String}
    {q : Observation} (found : os.find? (fun o => o.note == note && o.field == field) = some q) :
    report schema os note field =
      match os.reverse.find? (isOf field q.key) with
      | none => []
      | some last => (notices schema os last).filter (aim note field) := by
  unfold report
  rw [found]

theorem report_of_none {schema : String} {os : List Observation} {note field : String}
    (none : os.find? (fun o => o.note == note && o.field == field) = none) :
    report schema os note field = [] := by
  unfold report
  rw [none]

theorem Once.front {os new : List Observation} (once : Once (os ++ new)) : Once os := by
  unfold Once at *
  rw [List.map_append] at once
  exact (List.nodup_append.1 once).1

theorem Once.last_apart {os : List Observation} {o q : Observation} (once : Once (os ++ [o])) (inside : q ∈ os)
    (field : q.field = o.field) : q.note ≠ o.note := by
  intro note
  exact Text.key_ne_of_nodup once inside (by rw [note, field])

theorem report_concat_apart (schema : String) {os : List Observation} {o q : Observation}
    (once : Once (os ++ [o])) (inside : q ∈ os) (other : isOf q.field q.key o = false) :
    (notices schema (os ++ [o]) o).filter (aim q.note q.field) = [] ∧
      report schema (os ++ [o]) q.note q.field = report schema os q.note q.field := by
  constructor
  · refine notices_eq_nil fun p among pNote pField => ?_
    obtain rfl : p = q := once.eq among (by simp [inside]) pNote pField
    cases shared : isOf o.field o.key p with
    | false => rfl
    | true =>
      obtain ⟨field, key⟩ := isOf_iff.1 shared
      rw [isOf_iff.2 ⟨field.symm, key.symm⟩] at other
      cases other
  · rw [report_of_find? (once.find? (List.mem_append_left [o] inside)), report_of_find? (once.front.find? inside),
      List.reverse_append, List.reverse_singleton, List.singleton_append,
      List.find?_cons_of_neg (by simp [other])]
    cases latest : os.reverse.find? (isOf q.field q.key) with
    | none => rfl
    | some p =>
      obtain ⟨field, key⟩ := isOf_iff.1 (List.find?_some latest)
      have none : isOf p.field p.key o = false := by rw [field, key, other]
      have same : sharers (os ++ [o]) p.field p.key = sharers os p.field p.key := by simp [sharers, none]
      simp only [notices, same]

theorem report_concat_meets (schema : String) {os : List Observation} {o q : Observation}
    (once : Once (os ++ [o])) (inside : q ∈ os) (meets : isOf q.field q.key o = true) :
    (notices schema (os ++ [o]) o).filter (aim q.note q.field) ≠ [] ∧
      report schema (os ++ [o]) q.note q.field = (notices schema (os ++ [o]) o).filter (aim q.note q.field) := by
  obtain ⟨field, key⟩ := isOf_iff.1 meets
  have differ : q.note ≠ o.note := once.last_apart inside field.symm
  have several := one_lt_length_sharers (List.mem_append_left [o] inside) (by simp) field.symm key.symm differ
  have mem : q.note ∈ sharers (os ++ [o]) o.field o.key :=
    mem_sharers.2 ⟨q, by simp [inside], rfl, field.symm, key.symm⟩
  constructor
  · rw [← field]
    exact notices_ne_nil several mem
  · rw [report_of_find? (once.find? (List.mem_append_left [o] inside)), List.reverse_append,
      List.reverse_singleton, List.singleton_append, List.find?_cons_of_pos meets]

/-- One more observation: what is issued for a note takes the place of what was reported before. -/
theorem report_concat {schema : String} {os : List Observation} {o : Observation}
    (once : Once (os ++ [o])) (note field : String) :
    (((notices schema (os ++ [o]) o).filter (aim note field)).getLast?.map fun v => [v]).getD
      (report schema os note field) = report schema (os ++ [o]) note field := by
  have single := once.length_notices schema o note field
  cases before : os.find? fun q => q.note == note && q.field == field with
  | none =>
    rw [report_of_none before]
    by_cases here : o.note = note ∧ o.field = field
    · obtain ⟨rfl, rfl⟩ := here
      rw [report_of_find? (once.find? (List.mem_append_right os List.mem_cons_self)),
        getLast?_short single fun _ => rfl]
      simp [isOf]
    · have found : (os ++ [o]).find? (fun q => q.note == note && q.field == field) = none := by
        simpa [List.find?_append, before] using here
      have silent : (notices schema (os ++ [o]) o).filter (aim note field) = [] := by
        refine notices_eq_nil fun q mem qNote qField => ?_
        have := List.find?_eq_none.1 found q mem
        simp [qNote, qField] at this
      rw [report_of_none found, silent]
      rfl
  | some q =>
    obtain ⟨inside, rfl, rfl⟩ := find?_place before
    cases meets : isOf q.field q.key o with
    | true =>
      obtain ⟨issued, same⟩ := report_concat_meets schema once inside meets
      rw [same]
      exact getLast?_short single fun silent => absurd silent issued
    | false =>
      obtain ⟨silent, same⟩ := report_concat_apart schema once inside meets
      rw [same, silent]
      rfl

/-- Further observations: the last violation issued for a note and field is its report. -/
theorem report_append {schema : String} {os new : List Observation} (once : Once (os ++ new))
    (note field : String) :
    (((issues schema os new).filter (aim note field)).getLast?.map fun v => [v]).getD
      (report schema os note field) = report schema (os ++ new) note field := by
  induction new generalizing os with
  | nil => simp [issues]
  | cons o rest ih =>
    have all : os ++ o :: rest = (os ++ [o]) ++ rest := by simp
    rw [all] at once ⊢
    -- What the first observation reports is what the others find reported before.
    rw [← ih once, ← report_concat once.front note field, issues, List.filter_append, List.getLast?_append]
    cases ((issues schema (os ++ [o]) rest).filter (aim note field)).getLast? with
    | none => rfl
    | some v => rfl

/-- A note that is not reported shares no value with another one, or both would be reported. -/
theorem Once.unshared {schema : String} {os : List Observation} (once : Once os) {i : String}
    (alone : ∀ field, report schema os i field = []) {o q : Observation} (inside : o ∈ os) (other : o.note ≠ i)
    (mem : q ∈ os) (meets : isOf o.field o.key q = true) : q.note ≠ i := by
  obtain ⟨field, key⟩ := isOf_iff.1 meets
  rintro rfl
  have silent := alone q.field
  rw [report_of_find? (once.find? mem)] at silent
  cases latest : os.reverse.find? (isOf q.field q.key) with
  | none =>
    have := List.find?_eq_none.1 latest q (by simp [mem])
    simp [isOf] at this
  | some last =>
    rw [latest] at silent
    obtain ⟨lastField, lastKey⟩ := isOf_iff.1 (List.find?_some latest)
    have several : 1 < (sharers os last.field last.key).length := by
      rw [lastField, lastKey]
      exact one_lt_length_sharers inside mem field.symm key.symm other
    have shares : q.note ∈ sharers os last.field last.key :=
      mem_sharers.2 ⟨q, mem, rfl, lastField.symm, lastKey.symm⟩
    rw [← lastField] at silent
    exact notices_ne_nil several shares silent

/-- A note that is not reported can be left out: it is reported of no other either. -/
theorem report_without {schema : String} {os : List Observation} (once : Once os) {i : String}
    (alone : ∀ field, report schema os i field = []) {j : String} (other : j ≠ i) (field : String) :
    report schema (os.filter (·.note != i)) j field = report schema os j field := by
  have place : (os.filter (·.note != i)).find? (fun o => o.note == j && o.field == field) =
      os.find? (fun o => o.note == j && o.field == field) := by
    rw [List.find?_filter]
    congr 1
    funext o
    by_cases same : o.note = j
    · rw [Bool.eq_iff_iff]
      simp [same, other]
    · simp [same]
  cases found : os.find? fun o => o.note == j && o.field == field with
  | none => rw [report_of_none found, report_of_none (place.trans found)]
  | some o =>
    obtain ⟨inside, rfl, rfl⟩ := find?_place found
    have away : ∀ q ∈ os, isOf o.field o.key q = true → (q.note != i) = true :=
      fun q mem meets => bne_iff_ne.2 (once.unshared alone inside other mem meets)
    rw [report_of_find? found, report_of_find? (place.trans found), ← List.filter_reverse,
      List.find?_filter]
    have latest : os.reverse.find? (fun q => decide ((q.note != i) = true ∧ isOf o.field o.key q = true)) =
        os.reverse.find? (isOf o.field o.key) := by
      refine List.find?_congr fun q mem => ?_
      cases meets : isOf o.field o.key q with
      | false => simp
      | true => simpa using away q (List.mem_reverse.1 mem) meets
    rw [latest]
    cases chosen : os.reverse.find? (isOf o.field o.key) with
    | none => rfl
    | some last =>
      obtain ⟨field, key⟩ := isOf_iff.1 (List.find?_some chosen)
      have same : notices schema (os.filter (·.note != i)) last = notices schema os last := by
        unfold notices
        rw [field, key, sharers_filter away]
      simp only [same]

def ofGroup? (note : String) (keys : FoldedKeys) (g : FieldGroup) : Option Observation :=
  match keys.value? g.name with
  | none | some .null => none
  | some v =>
    match v.uniqueKey with
    | .error _ => none
    | .ok key => some ⟨note, g.name, key, v⟩

theorem ofGroup?_eq_some {note : String} {keys : FoldedKeys} {g : FieldGroup} {o : Observation}
    (read : ofGroup? note keys g = some o) : o.note = note ∧ o.field = g.name := by
  unfold ofGroup? at read
  split at read
  · cases read
  · cases read
  · split at read
    · cases read
    · cases read
      exact ⟨rfl, rfl⟩

end Observation

open Observation

def Schema.observations (s : Schema) (d : Document) : List Observation :=
  match FoldedKeys.ofEntries (d.frontmatter.getD []) with
  | .error _ => []
  | .ok keys => s.uniqueGroups.filterMap (ofGroup? d.id keys)

theorem Schema.note_of_observations {s : Schema} {d : Document} {o : Observation}
    (mem : o ∈ s.observations d) : o.note = d.id := by
  unfold observations at mem
  split at mem
  · simp at mem
  · obtain ⟨g, _, read⟩ := List.mem_filterMap.1 mem
    exact (ofGroup?_eq_some read).1

theorem FieldGroup.nodup_names (fields : List FieldSpec) :
    ((FieldGroup.ofFields fields).map (·.name)).Nodup := by
  unfold ofFields
  rw [List.map_map]
  have same : (Text.distinct (fields.map (·.name))).map ((·.name) ∘ fun n =>
      (⟨n, fields.filter (·.name == n)⟩ : FieldGroup)) = Text.distinct (fields.map (·.name)) :=
    List.map_id' _
  rw [same]
  exact Text.nodup_distinct _

theorem Schema.nodup_uniqueGroups (s : Schema) : (s.uniqueGroups.map (·.name)).Nodup :=
  List.Nodup.sublist (List.filter_sublist.map _) (FieldGroup.nodup_names s.fields)

theorem Observation.sublist_fields (note : String) (keys : FoldedKeys) (gs : List FieldGroup) :
    ((gs.filterMap (ofGroup? note keys)).map (·.field)).Sublist (gs.map (·.name)) := by
  induction gs with
  | nil => exact .slnil
  | cons g gs ih =>
    cases read : ofGroup? note keys g with
    | none =>
      rw [List.filterMap_cons_none read]
      exact ih.cons _
    | some o =>
      rw [List.filterMap_cons_some read, List.map_cons, List.map_cons, (ofGroup?_eq_some read).2]
      exact ih.cons_cons _

theorem Schema.once_observations (s : Schema) {ds : List Document}
    (distinct : (ds.map (·.id)).Nodup) : Once (ds.flatMap s.observations) := by
  unfold Once
  rw [List.map_flatMap, List.nodup_flatMap]
  constructor
  · intro d _
    unfold observations
    split
    · simp
    · rename_i keys _
      have fields : ((s.uniqueGroups.filterMap (ofGroup? d.id keys)).map (·.field)).Nodup :=
        List.Nodup.sublist (sublist_fields d.id keys s.uniqueGroups) s.nodup_uniqueGroups
      refine List.Nodup.of_map Prod.snd ?_
      rw [List.map_map]
      exact fields
  · refine (List.pairwise_map.1 distinct).imp ?_
    intro a b differ
    simp only [Function.onFun, List.disjoint_left, List.mem_map]
    rintro _ ⟨o, ho, rfl⟩ ⟨p, hp, same⟩
    rw [Prod.mk.injEq] at same
    exact differ ((note_of_observations ho).symm.trans (same.1.symm.trans (note_of_observations hp)))

namespace UniqueValues

/-- The values gathered are those of some observations. -/
def Gathers (seen : UniqueValues) (os : List Observation) : Prop :=
  ∀ field key, seen.members field key = sharers os field key

theorem gathers_empty : Gathers {} [] := fun _ _ => rfl

theorem members_setMembers (seen : UniqueValues) (field key : String) (members : List String)
    (f k : String) : (seen.setMembers field key members).members f k =
      if field = f ∧ key = k then members else seen.members f k := by
  obtain ⟨shared⟩ := seen
  unfold setMembers UniqueValues.members
  dsimp only
  induction shared with
  | nil =>
    by_cases same : field = f ∧ key = k
    · simp [replaceMembers, same]
    · simp [replaceMembers, same]
  | cons b rest ih =>
    unfold replaceMembers
    by_cases here : b.field = field ∧ b.key = key
    · obtain ⟨rfl, rfl⟩ := here
      by_cases same : b.field = f ∧ b.key = k
      · simp [same]
      · simp [same]
    · by_cases same : b.field = f ∧ b.key = k
      · obtain ⟨rfl, rfl⟩ := same
        have differ : ¬ (field = b.field ∧ key = b.key) := fun h => here ⟨h.1.symm, h.2.symm⟩
        simp [here, differ]
      · have miss : (b.field == f && b.key == k) = false := by
          rw [← Bool.not_eq_true, Bool.and_eq_true, beq_iff_eq, beq_iff_eq]
          exact same
        simp only [here, Bool.and_eq_true, beq_iff_eq, if_false, List.find?_cons, miss]
        exact ih

variable {seen : UniqueValues} {os : List Observation}

theorem Gathers.observeField (h : Gathers seen os) {schema note field key : String} {value : Value}
    {vs : List Violation} (read : value.uniqueKey = .ok key)
    (once : Once (os ++ [⟨note, field, key, value⟩]))
    (observed : (seen.observeField schema note field value).2 = .ok vs) :
    Gathers (seen.observeField schema note field value).1 (os ++ [⟨note, field, key, value⟩]) ∧
      vs = notices schema (os ++ [⟨note, field, key, value⟩]) ⟨note, field, key, value⟩ := by
  have all : sharers (os ++ [⟨note, field, key, value⟩]) field key = sharers os field key ++ [note] := by
    simp [sharers, isOf]
  have new : (seen.members field key).contains note = false := by
    have nodup := once.nodup_sharers field key
    rw [all] at nodup
    rw [h field key, ← Bool.not_eq_true, List.contains_iff_mem]
    exact fun mem => (List.nodup_append.1 nodup).2.2 _ mem _ (by simp) rfl
  have gathered : Gathers (seen.setMembers field key (seen.members field key ++ [note]))
      (os ++ [⟨note, field, key, value⟩]) := by
    intro f k
    rw [members_setMembers]
    split
    · rename_i same
      obtain ⟨rfl, rfl⟩ := same
      rw [all, h]
    · rename_i differ
      rw [h]
      have away : isOf f k ⟨note, field, key, value⟩ = false := by
        rw [← Bool.not_eq_true, isOf_iff]
        exact differ
      simp [sharers, away]
  unfold UniqueValues.observeField at observed ⊢
  simp only [read, new, Bool.false_eq_true, if_false] at observed ⊢
  by_cases few : (seen.members field key ++ [note]).length ≤ 1
  · simp only [few, if_true, Except.ok.injEq] at observed ⊢
    refine ⟨gathered, ?_⟩
    unfold notices
    rw [all, ← h, if_pos few, observed]
  · simp only [few, if_false] at observed ⊢
    obtain ⟨text, display, observed⟩ := Outcome.bind_eq_ok.1 observed
    cases observed
    refine ⟨gathered, ?_⟩
    unfold notices shown
    rw [all, ← h, if_neg few, display]

theorem Gathers.observeFields (h : Gathers seen os) {schema note : String} {keys : FoldedKeys}
    {groups : List FieldGroup} {vs : List Violation}
    (once : Once (os ++ groups.filterMap (ofGroup? note keys)))
    (observed : (seen.observeFields schema note keys groups).2 = .ok vs) :
    Gathers (seen.observeFields schema note keys groups).1
        (os ++ groups.filterMap (ofGroup? note keys)) ∧
      vs = issues schema os (groups.filterMap (ofGroup? note keys)) := by
  induction groups generalizing seen os vs with
  | nil =>
    cases observed
    simpa [issues, UniqueValues.observeFields] using h
  | cons g rest ih =>
    -- A field without a value, or with null, is not observed at all.
    have skipped (none : ofGroup? note keys g = none) (same :
        seen.observeFields schema note keys (g :: rest) = seen.observeFields schema note keys rest) :
        Gathers (seen.observeFields schema note keys (g :: rest)).1
            (os ++ (g :: rest).filterMap (ofGroup? note keys)) ∧
          vs = issues schema os ((g :: rest).filterMap (ofGroup? note keys)) := by
      rw [List.filterMap_cons_none none] at once ⊢
      rw [same] at observed ⊢
      exact ih h once observed
    cases value : keys.value? g.name with
    | none => exact skipped (by simp [ofGroup?, value]) (by rw [UniqueValues.observeFields, value])
    | some v =>
      by_cases null : v = .null
      · subst null
        exact skipped (by simp [ofGroup?, value]) (by rw [UniqueValues.observeFields, value])
      · clear skipped
        cases key : v.uniqueKey with
        | error e =>
          have failed : seen.observeField schema note g.name v = (seen, .error e) := by
            rw [UniqueValues.observeField, key]
          simp [UniqueValues.observeFields, value, failed] at observed
        | ok k =>
          have read : ofGroup? note keys g = some ⟨note, g.name, k, v⟩ := by
            unfold ofGroup?
            rw [value]
            simp only [key]
          rw [List.filterMap_cons_some read] at once ⊢
          rw [List.append_cons] at once ⊢
          have now : Once (os ++ [⟨note, g.name, k, v⟩]) := once.front
          cases found : seen.observeField schema note g.name v with
          | mk after result =>
            cases result with
            | error e => simp [UniqueValues.observeFields, value, found] at observed
            | ok first =>
              have step : seen.observeFields schema note keys (g :: rest) =
                  ((after.observeFields schema note keys rest).1,
                    do return first ++ (← (after.observeFields schema note keys rest).2)) := by
                simp [UniqueValues.observeFields, value, found]
              rw [step] at observed ⊢
              obtain ⟨others, later, observed⟩ := Outcome.bind_eq_ok.1 observed
              cases observed
              have one := h.observeField key now (by rw [found])
              rw [found] at one
              have more := ih one.1 once later
              rw [issues, ← one.2, ← more.2]
              exact ⟨more.1, rfl⟩

theorem Gathers.observe (h : Gathers seen os) {s : Schema} {d : Document} {vs : List Violation}
    (once : Once (os ++ s.observations d))
    (observed : (seen.observe s d.id d.frontmatter).2 = .ok vs) :
    Gathers (seen.observe s d.id d.frontmatter).1 (os ++ s.observations d) ∧
      vs = issues s.id os (s.observations d) := by
  have idle (none : s.observations d = [])
      (same : seen.observe s d.id d.frontmatter = (seen, .ok [])) :
      Gathers (seen.observe s d.id d.frontmatter).1 (os ++ s.observations d) ∧
        vs = issues s.id os (s.observations d) := by
    rw [same] at observed ⊢
    cases observed
    rw [none]
    simpa [issues] using h
  cases groups : s.uniqueGroups with
  | nil =>
    refine idle ?_ (by simp [UniqueValues.observe, groups])
    unfold Schema.observations
    split <;> simp [groups]
  | cons g rest =>
    cases entries : d.frontmatter.getD [] with
    | nil =>
      refine idle ?_ (by simp [UniqueValues.observe, groups, entries])
      unfold Schema.observations
      rw [entries, FoldedKeys.ofEntries]
      simp [ofGroup?, FoldedKeys.value?, FoldedKeys.find?]
    | cons e m =>
      clear idle
      unfold Schema.observations at once ⊢
      cases keys : FoldedKeys.ofEntries (d.frontmatter.getD []) with
      | error f =>
        rw [entries] at keys
        simp [UniqueValues.observe, groups, entries, keys] at observed
      | ok folded =>
        have step : seen.observe s d.id d.frontmatter =
            seen.observeFields s.id d.id folded s.uniqueGroups := by
          rw [entries] at keys
          simp [UniqueValues.observe, groups, entries, keys]
        rw [step] at observed ⊢
        rw [keys] at once
        exact h.observeFields once observed

end UniqueValues
end VaultSchema
