import VaultSchema.Proofs.Schema.Sharing
import VaultSchema.Proofs.Schema.Tolerance
import VaultSchema.Proofs.Value.Order

/-! Notes gone through one after the other for values that they share. In the end two notes with the
same text of a value are gathered under it, and the last that each is told names the other. -/

set_option autoImplicit false

namespace VaultSchema

open Observation (report issues aim Once)

theorem Observation.issues_append (schema : String) (before os new : List Observation) :
    issues schema before (os ++ new) = issues schema before os ++ issues schema (before ++ os) new := by
  induction os generalizing before with
  | nil => simp [issues]
  | cons o os ih => simp [issues, ih]

/-- The values that some notes gave, and the violations that were issued on the way. -/
inductive Surveyed (s : Schema) : List Document → UniqueValues → List Violation → Prop where
  | begun : Surveyed s [] {} []
  | next {ds : List Document} {seen : UniqueValues} {issued vs : List Violation} (before : Surveyed s ds seen issued)
    (d : Document) (observed : (seen.observe s d.id d.frontmatter).2 = .ok vs) :
    Surveyed s (ds ++ [d]) (seen.observe s d.id d.frontmatter).1 (issued ++ vs)

/-- The last that a note is told of a field names another note. -/
def Blamed (issued : List Violation) (schema field note other : String) : Prop :=
  ∃ shown names, (issued.filter (aim note field)).getLast? = some (.duplicate schema field shown note names) ∧
    other ∈ names

/-- A note whose values every conversion takes, and whose sequences can be put in order. -/
structure Document.Orderly (d : Document) : Prop where
  tame : (Value.mapping d.entries).Tame
  sortable : ∀ e ∈ d.entries, e.2.MembersSortable

theorem Schema.exists_surveyed (s : Schema) (ds : List Document) (orderly : ∀ d ∈ ds, d.Orderly) :
    ∃ seen issued, Surveyed s ds seen issued := by
  induction ds using List.reverseRecOn with
  | nil => exact ⟨_, _, .begun⟩
  | append_singleton ds d ih =>
    obtain ⟨seen, issued, before⟩ := ih fun c mem => orderly c (by simp [mem])
    have last : d.Orderly := orderly d (by simp)
    obtain ⟨vs, observed⟩ := seen.exists_observe s last.tame last.sortable
    exact ⟨_, _, before.next d observed⟩

namespace Surveyed

variable {s : Schema} {ds : List Document} {seen : UniqueValues} {issued : List Violation} {g : FieldGroup}
  {d e : Document} {key : String}

theorem gathers (h : Surveyed s ds seen issued) (distinct : (ds.map (·.id)).Nodup) :
    seen.Gathers (ds.flatMap s.observations) ∧ issued = issues s.id [] (ds.flatMap s.observations) := by
  induction h with
  | begun => exact ⟨UniqueValues.gathers_empty, rfl⟩
  | @next ds seen issued vs before d observed ih =>
    have once : Once (ds.flatMap s.observations ++ s.observations d) := by
      simpa using s.once_observations distinct
    rw [List.map_append] at distinct
    obtain ⟨gathered, rfl⟩ := ih (List.nodup_append.1 distinct).1
    obtain ⟨more, rfl⟩ := gathered.observe once observed
    rw [List.flatMap_append, List.flatMap_singleton, Observation.issues_append, List.nil_append]
    exact ⟨more, rfl⟩

theorem members (h : Surveyed s ds seen issued) (distinct : (ds.map (·.id)).Nodup) (group : g ∈ s.uniqueGroups)
    (key : String) : seen.members g.name key = (ds.filter fun c => g.keyIn? c == some key).map (·.id) := by
  rw [(h.gathers distinct).1, Schema.sharers_eq group]

theorem mem_members (h : Surveyed s ds seen issued) (distinct : (ds.map (·.id)).Nodup) (group : g ∈ s.uniqueGroups)
    (mem : d ∈ ds) (has : g.keyIn? d = some key) : d.id ∈ seen.members g.name key := by
  rw [h.members distinct group]
  exact List.mem_map_of_mem (List.mem_filter.2 ⟨mem, by simp [has]⟩)

/-- The last that is issued is the report on the whole. -/
theorem last_issued (h : Surveyed s ds seen issued) (distinct : (ds.map (·.id)).Nodup) (note field : String) :
    ((issued.filter (aim note field)).getLast?.map fun v => [v]).getD [] =
      report s.id (ds.flatMap s.observations) note field := by
  obtain ⟨_, rfl⟩ := h.gathers distinct
  have once : Once ([] ++ ds.flatMap s.observations) := s.once_observations distinct
  exact Observation.report_append once note field

theorem blamed (h : Surveyed s ds seen issued) (distinct : (ds.map (·.id)).Nodup) (group : g ∈ s.uniqueGroups)
    (hd : d ∈ ds) (he : e ∈ ds) (apart : d.id ≠ e.id) (has : g.keyIn? d = some key) (shares : g.keyIn? e = some key) :
    Blamed issued s.id g.name d.id e.id := by
  obtain ⟨last, _, _, said⟩ := s.report_eq distinct hd group
  have among : e.id ∈ g.others ds d := by
    rw [FieldGroup.others, has]
    refine List.mem_map_of_mem (List.mem_filter.2 ⟨he, ?_⟩)
    simp [shares, apart.symm]
  rw [if_neg (List.ne_nil_of_mem among), ← h.last_issued distinct] at said
  refine ⟨g.shownIn last, g.others ds d, ?_, among⟩
  cases latest : (issued.filter (aim d.id g.name)).getLast? with
  | none => simp [latest] at said
  | some v => simpa [latest] using said

end Surveyed

/-- Two notes are gathered under one text, and each is told of the other. -/
structure Paired (s : Schema) (g : FieldGroup) (seen : UniqueValues) (issued : List Violation) (key : String)
    (d e : Document) : Prop where
  first : d.id ∈ seen.members g.name key
  second : e.id ∈ seen.members g.name key
  told : Blamed issued s.id g.name d.id e.id
  tells : Blamed issued s.id g.name e.id d.id

theorem FieldGroup.keyIn?_of_valueIn? {g : FieldGroup} {d : Document} {v : Value} {key : String}
    (read : g.valueIn? d = some v) (keyed : v.uniqueKey = .ok key) : g.keyIn? d = some key := by
  rw [keyIn?, read, Option.bind_some, keyed]
  rfl

/-- Whether the order of members tells sequences apart. It never makes a fault, and it does not matter at all
exactly if the members are uniform. Then two notes that hold the same members are told of each other,
whatever other notes there are. -/
theorem members_shared {kind : SequenceKind} {items : List Value} {key : String}
    (keyed : Value.uniqueKey (.sequence kind items) = .ok key) :
    (∀ kind' others, others.Perm items → ∃ other, Value.uniqueKey (.sequence kind' others) = .ok other) ∧
    ((∀ kind' others, others.Perm items → Value.uniqueKey (.sequence kind' others) = .ok key) ↔
      Value.Uniform items) ∧
    (Value.Uniform items → ∀ {s : Schema} {g : FieldGroup} {ds : List Document} {d e : Document}
      {kind' : SequenceKind} {others : List Value}, g ∈ s.uniqueGroups → (ds.map (·.id)).Nodup →
      d ∈ ds → e ∈ ds → d.id ≠ e.id →
      g.valueIn? d = some (.sequence kind items) → g.valueIn? e = some (.sequence kind' others) →
      others.Perm items →
      (∀ seen issued, Surveyed s ds seen issued → Paired s g seen issued key d e) ∧
      ((∀ c ∈ ds, c.Orderly) → ∃ seen issued, Surveyed s ds seen issued)) := by
  have ignored := Value.order_ignored_iff keyed
  refine ⟨fun _ _ => Value.exists_uniqueKey_perm keyed, ignored, ?_⟩
  intro uniform s g ds d e kind' others group distinct hd he apart read reads perm
  have has := FieldGroup.keyIn?_of_valueIn? read keyed
  have shares := FieldGroup.keyIn?_of_valueIn? reads (ignored.2 uniform kind' others perm)
  refine ⟨fun seen issued survey => ?_, s.exists_surveyed ds⟩
  exact {
    first := survey.mem_members distinct group hd has
    second := survey.mem_members distinct group he shares
    told := survey.blamed distinct group hd he apart has shares
    tells := survey.blamed distinct group he hd apart.symm shares has }

def shelf : Schema where
  id := "books"
  query := "*"
  fields := [{ name := "editions", type := .primitive .array, unique := true }]

def edited (id : String) (editions : List Value) : Document :=
  ⟨id, some [(.text "editions", .list editions)], [], none, none⟩

def shelved (editions : List Value) : List Document := [edited "Dune.md" editions, edited "Emma.md" editions.reverse]

theorem listed_fine {editions items : List Value} (fine : ∀ v ∈ editions, v.Tame ∧ v.Sortable)
    (own : ∀ v ∈ items, v ∈ editions) : (Value.list items).Tame ∧ (Value.list items).MembersSortable := by
  refine ⟨.sequence _ _ fun v mem => (fine v (own v mem)).1, ?_⟩
  rintro _ _ ⟨⟩ v mem
  exact (fine v (own v mem)).2

theorem exists_key {editions : List Value} (fine : ∀ v ∈ editions, v.Tame ∧ v.Sortable) :
    ∃ key, Value.uniqueKey (.list editions) = .ok key := by
  obtain ⟨tame, sortable⟩ := listed_fine fine fun _ mem => mem
  exact tame.exists_uniqueKey sortable

theorem shelved_orderly {editions : List Value} (fine : ∀ v ∈ editions, v.Tame ∧ v.Sortable) :
    ∀ d ∈ shelved editions, d.Orderly := by
  have each : ∀ id items, (∀ v ∈ items, v ∈ editions) → (edited id items).Orderly := by
    intro id items own
    obtain ⟨tame, sortable⟩ := listed_fine fine own
    refine ⟨.mapping _ ?_ ?_, ?_⟩
    · simp [edited, Document.entries, Scalar.IsKey]
    · simpa [edited, Document.entries] using tame
    · simpa [edited, Document.entries] using sortable
  intro d mem
  rcases List.mem_pair.1 mem with rfl | rfl
  · exact each _ _ fun _ mem => mem
  · exact each _ _ fun _ mem => List.mem_reverse.1 mem

def romeOslo : List Value := [.text "Rome", .text "Oslo"]

theorem members_shared_rome : ∃ key seen issued, Value.uniqueKey (.list romeOslo) = .ok key ∧
    Surveyed shelf (shelved romeOslo) seen issued ∧
    Paired shelf ⟨"editions", shelf.fields⟩ seen issued key (edited "Dune.md" romeOslo)
      (edited "Emma.md" romeOslo.reverse) := by
  have fine : ∀ v ∈ romeOslo, v.Tame ∧ v.Sortable := by simp [romeOslo, Scalar.Tame, Value.Sortable.scalar]
  have uniform : Value.Uniform romeOslo := by
    refine Value.uniform_of_same fun v mem => ?_
    rcases List.mem_pair.1 mem with rfl | rfl <;> rfl
  obtain ⟨key, keyed⟩ := exists_key fine
  obtain ⟨_, _, shared⟩ := members_shared keyed
  obtain ⟨paired, surveyed⟩ := shared (s := shelf) (g := ⟨"editions", shelf.fields⟩) uniform
    (List.mem_singleton_self _) (by decide : ((shelved romeOslo).map (·.id)).Nodup) List.mem_cons_self
    (List.mem_cons_of_mem _ List.mem_cons_self) (by decide) rfl rfl (List.reverse_perm _)
  obtain ⟨seen, issued, survey⟩ := surveyed (shelved_orderly fine)
  exact ⟨key, seen, issued, keyed, survey, paired seen issued survey⟩

def paris (turned : Bool) : Value :=
  let city : Scalar × Value := (.text "city", .text "Paris")
  let year : Scalar × Value := (.text "year", .int 1965)
  .mapping (if turned then [year, city] else [city, year])

theorem paris_fine (turned : Bool) : (paris turned).Tame ∧ (paris turned).Sortable := by
  have small : (1965 : Int).natAbs < Binary64.overflowInteger := by decide +kernel
  cases turned with
  | false =>
    refine ⟨by simpa [paris, Scalar.IsKey, Scalar.Tame] using small, .mapping _ (.inr (.inl ?_)) ?_⟩
    · simp [Json.isTextKey]
    · simp [Value.Sortable.scalar]
  | true =>
    refine ⟨by simpa [paris, Scalar.IsKey, Scalar.Tame] using small, .mapping _ (.inr (.inl ?_)) ?_⟩
    · simp [Json.isTextKey]
    · simp [Value.Sortable.scalar]

/-- Editions that differ in the order of their keys alone stay in the order in which they are listed. Two notes
that list them in different orders are not found to share them. -/
theorem editions_told_apart : ∃ key other seen issued,
    Value.uniqueKey (.list [paris true, paris false]) = .ok key ∧
    [paris false, paris true].Perm [paris true, paris false] ∧
    Value.uniqueKey (.list [paris false, paris true]) = .ok other ∧ key ≠ other ∧
    Surveyed shelf (shelved [paris true, paris false]) seen issued ∧
    seen.members "editions" key = ["Dune.md"] := by
  have swap : [paris false, paris true].Perm [paris true, paris false] := List.Perm.swap _ _ _
  have fine : ∀ v ∈ [paris true, paris false], v.Tame ∧ v.Sortable := by simp [paris_fine]
  obtain ⟨key, keyed⟩ := exists_key fine
  obtain ⟨seen, issued, survey⟩ := shelf.exists_surveyed _ (shelved_orderly fine)
  obtain ⟨other, others⟩ : ∃ other, Value.uniqueKey (.list [paris false, paris true]) = .ok other :=
    Value.exists_uniqueKey_perm keyed swap
  have differ : key ≠ other := by
    rintro rfl
    have same := Value.spaced_eq_of_swap keyed others (Json.write_canonical_swap (by decide) _ _)
    exact absurd (congrArg Except.toOption same) (by decide +kernel)
  refine ⟨key, other, seen, issued, keyed, swap, others, differ, survey, ?_⟩
  have group : (⟨"editions", shelf.fields⟩ : FieldGroup) ∈ shelf.uniqueGroups := List.mem_singleton_self _
  have has := FieldGroup.keyIn?_of_valueIn? (g := ⟨"editions", shelf.fields⟩)
    (d := edited "Dune.md" [paris true, paris false]) rfl keyed
  have lacks := FieldGroup.keyIn?_of_valueIn? (g := ⟨"editions", shelf.fields⟩)
    (d := edited "Emma.md" [paris true, paris false].reverse) rfl others
  refine (survey.members (by decide) group key).trans ?_
  rw [shelved, List.filter_cons_of_pos (by rw [has]; simp),
    List.filter_cons_of_neg (by rw [lacks]; simpa using differ.symm)]
  rfl

end VaultSchema
