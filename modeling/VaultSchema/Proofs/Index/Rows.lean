import VaultSchema.Proofs.Index.Convergence
import VaultSchema.Proofs.Json.RoundTrip

set_option autoImplicit false

namespace VaultSchema.TagIndex

variable {x : TagIndex} {rows : List (String × List Scalar)} {i : Scalar} {t : String}

/-- The members of each tag are paths, each listed once. -/
structure OfPaths (x : TagIndex) : Prop where
  tidy : TidyTags x.byTag
  paths : ∀ t, ∀ i ∈ x.members t, ∃ id, i = .text id

structure PathRows (rows : List (String × List Scalar)) : Prop where
  distinct : (rows.map Prod.fst).Nodup
  paths : ∀ r ∈ rows, ∀ i ∈ r.2, ∃ id, i = .text id

theorem OfPaths.listsTexts (h : x.OfPaths) : x.ListsTexts := by
  intro r row i mem
  refine h.paths r.1 i ?_
  unfold members
  rw [(Table.mem_rows h.tidy.keys).1 row]
  exact mem

theorem OfPaths.exists_toRows (h : x.OfPaths) : ∃ rows, x.toRows = .ok rows ∧ PathRows rows ∧
    ∀ t i, i ∈ x.members t ↔ ∃ r ∈ rows, r.1 = t ∧ i ∈ r.2 := by
  have each : ∀ t, ∃ ids : List String, x.members t = ids.map .text := fun t => exists_paths (h.paths t)
  choose ids members using each
  have sorts : ∀ t, sortMembers (x.members t) = .ok ((Text.sorted (ids t)).map .text) := by
    intro t
    rw [members, sortMembers_texts]
  refine ⟨_, toRows_eq h.tidy sorts, ⟨?_, ?_⟩, fun t i => ?_⟩
  · have distinct : x.sortedTags.Nodup := (sortedTags_strict h.tidy).imp fun less => ne_of_lt less
    simpa [Function.comp_def] using distinct
  · simp only [List.mem_map]
    rintro _ ⟨t, _, rfl⟩ i mem
    obtain ⟨id, _, rfl⟩ := List.mem_map.1 mem
    exact ⟨id, rfl⟩
  · have row : i ∈ (Text.sorted (ids t)).map Scalar.text ↔ i ∈ x.members t := by
      rw [members]
      simp
    constructor
    · intro mem
      have tagged : t ∈ x.sortedTags := mem_sortedTags.2 ((isSome_iff_members h.tidy).2 ⟨i, mem⟩)
      exact ⟨_, List.mem_map.2 ⟨t, tagged, rfl⟩, rfl, row.2 mem⟩
    · rintro ⟨_, mem, rfl, listed⟩
      obtain ⟨t, _, rfl⟩ := List.mem_map.1 mem
      exact row.1 listed

def valueOf (rows : List (String × List Scalar)) : Value :=
  .mapping [(.text "version", .int version),
    (.text "tags", .mapping (rows.map fun r => (.text r.1, .list (r.2.map .scalar))))]

theorem toValue_eq (made : x.toRows = .ok rows) : x.toValue = .ok (valueOf rows) := Outcome.bind_eq_ok.2 ⟨rows, made, rfl⟩

theorem PathRows.plain (h : PathRows rows) : (valueOf rows).Plain := by
  have tags : (Value.mapping (rows.map fun r => (.text r.1, .list (r.2.map .scalar)))).Plain := by
    refine .mapping _ ?_ ?_ ?_
    · simp only [List.mem_map]
      rintro _ ⟨r, _, rfl⟩
      exact ⟨r.1, rfl⟩
    · simpa [Function.comp_def] using h.distinct.map fun a b same => Scalar.text.inj same
    · simp only [List.mem_map]
      rintro _ ⟨r, inside, rfl⟩
      refine .list _ fun v mem => ?_
      obtain ⟨i, listed, rfl⟩ := List.mem_map.1 mem
      obtain ⟨id, rfl⟩ := h.paths r inside i listed
      exact .text id
  exact .mapping _ (by simp) (by simp) (by simpa using ⟨.int version (by decide), tags⟩)

theorem ofValue?_valueOf (rows : List (String × List Scalar)) : ofValue? (valueOf rows) = some (ofRows rows) := by
  have members (ids : List Scalar) : (ids.map Value.scalar).mapM scalar? = some ids := by
    rw [List.mapM_map]
    exact Outcome.mapM_eq_some_self fun _ _ => rfl
  have all : (rows.map fun r => (Scalar.text r.1, Value.list (r.2.map .scalar))).mapM readRow? = some rows := by
    rw [List.mapM_map]
    refine Outcome.mapM_eq_some_self fun r _ => ?_
    simp [readRow?, readMembers?, members]
  have current : isCurrent [(.text "version", .int version),
      (.text "tags", .mapping (rows.map fun r => (.text r.1, .list (r.2.map .scalar))))] = true := by
    simp [isCurrent, Entries.get?, Entries.find?, Scalar.sameKey, Scalar.rank?]
  unfold valueOf ofValue?
  dsimp only
  rw [if_pos current]
  change (_ : Option (List _)).map ofRows = _
  rw [all]
  rfl

theorem find?_sameKey {known : List Scalar} (paths : ∀ i ∈ known, ∃ id, i = .text id) (mem : i ∈ known) :
    (known.find? i.sameKey).getD i = i := by
  cases found : known.find? i.sameKey with
  | none => rfl
  | some j =>
    obtain ⟨a, rfl⟩ := paths i mem
    obtain ⟨b, rfl⟩ := paths j (List.mem_of_find?_eq_some found)
    have same : a = b := by simpa using List.find?_some found
    rw [Option.getD_some, same]

theorem mem_members_addRow (r : String × List Scalar) :
    i ∈ (addRow x r).members t ↔ i ∈ x.members t ∨ r.1 = t ∧ i ∈ r.2 := by
  obtain ⟨tag, ids⟩ := r
  unfold addRow
  dsimp only
  induction ids generalizing x with
  | nil => simp
  | cons id ids ih =>
    rw [List.foldl_cons, ih, mem_members_addTag, List.mem_cons, eq_comm (a := t)]
    tauto

theorem mem_members_addRows (rows : List (String × List Scalar)) :
    i ∈ (rows.foldl addRow x).members t ↔ i ∈ x.members t ∨ ∃ r ∈ rows, r.1 = t ∧ i ∈ r.2 := by
  induction rows generalizing x with
  | nil => simp
  | cons r rows ih => rw [List.foldl_cons, ih, mem_members_addRow, List.exists_mem_cons_iff, or_assoc]

theorem PathRows.mem_members (h : PathRows rows) :
    i ∈ (ofRows rows).members t ↔ ∃ r ∈ rows, r.1 = t ∧ i ∈ r.2 := by
  have known : ∀ i ∈ rows.flatMap Prod.snd, ∃ id, i = .text id := by
    intro i mem
    obtain ⟨r, inside, listed⟩ := List.mem_flatMap.1 mem
    exact h.paths r inside i listed
  have same : (rows.map fun r => (r.1, r.2.map fun s => ((rows.flatMap Prod.snd).find? s.sameKey).getD s)) = rows := by
    refine (List.map_congr_left fun r inside => ?_).trans (List.map_id rows)
    have own : r.2.map (fun s => ((rows.flatMap Prod.snd).find? s.sameKey).getD s) = r.2 :=
      (List.map_congr_left fun s listed =>
        find?_sameKey known (List.mem_flatMap.2 ⟨r, inside, listed⟩)).trans (List.map_id r.2)
    rw [own]
    rfl
  unfold ofRows
  dsimp only
  rw [same, mem_members_addRows]
  simp [members]

/-- A text holds an index in which each tag has the same members. -/
def Holds (x : TagIndex) (text : String) : Prop :=
  ∃ y, ofText? text = some y ∧ ∀ t i, i ∈ y.members t ↔ i ∈ x.members t

theorem OfPaths.exists_toText (h : x.OfPaths) : ∃ text, x.toText = .ok text ∧ x.Holds text := by
  obtain ⟨rows, made, paths, members⟩ := h.exists_toRows
  obtain ⟨text, written⟩ := paths.plain.exists_writeAt .indented 0
  refine ⟨text, Outcome.bind_eq_ok.2 ⟨_, toValue_eq made, written⟩, ofRows rows, ?_, fun t i => ?_⟩
  · unfold ofText?
    rw [Json.read?_write Json.loose_indented paths.plain written, Option.bind_some, ofValue?_valueOf]
  · rw [paths.mem_members, members]

end VaultSchema.TagIndex
