import VaultSchema.Index.TagIndex
import VaultSchema.Proofs.Note.Store
import VaultSchema.Proofs.Table
import VaultSchema.Proofs.Text.Order

/-! The two maps of the index of tags. They are inverse to each other when a note is a member of a
tag just if the tag is one of the note's, and then neither of them needs to hold anything empty.
Every operation keeps them so, but for a renaming to a path that has other tags. -/

set_option autoImplicit false

namespace VaultSchema

namespace Members

variable {α : Type} [BEq α] [LawfulBEq α] {xs ys : List α} {a b : α}

@[simp] theorem mem_insert : a ∈ insert xs b ↔ a ∈ xs ∨ a = b := by
  unfold insert
  split
  · rename_i h
    rw [List.contains_iff_mem] at h
    constructor
    · exact Or.inl
    · rintro (mem | rfl)
      · exact mem
      · exact h
  · simp

theorem nodup_insert (h : xs.Nodup) (b : α) : (insert xs b).Nodup := by
  unfold insert
  split
  · exact h
  · rename_i new
    rw [List.contains_iff_mem] at new
    simpa [List.nodup_append] using ⟨h, fun a mem => fun same => new (same ▸ mem)⟩

theorem insert_ne_nil : insert xs b ≠ [] := List.ne_nil_of_mem (mem_insert.2 (Or.inr rfl))

@[simp] theorem mem_without : a ∈ without xs ys ↔ a ∈ xs ∧ a ∉ ys := by simp [without]

theorem same_iff : same xs ys = true ↔ ∀ a, a ∈ xs ↔ a ∈ ys := by
  simp only [same, Bool.and_eq_true, List.all_eq_true, List.contains_iff_mem]
  exact ⟨fun h a => ⟨h.1 a, h.2 a⟩, fun h => ⟨fun a => (h a).1, fun a => (h a).2⟩⟩

end Members

namespace TagIndex

variable {x : TagIndex} {id i : Scalar} {tag t : String}

/-- A note is a member of a tag just if the tag is one of the note's. -/
def Mirrored (x : TagIndex) : Prop := ∀ tag id, id ∈ x.members tag ↔ tag ∈ x.tagsFor id

/-- Each tag has one row, in which some members are listed once. -/
structure TidyTags (byTag : Table String (List Scalar)) : Prop where
  keys : byTag.keys.Nodup
  rows : ∀ tag members, byTag.get? tag = some members → members ≠ [] ∧ members.Nodup

section tidyTags

variable {byTag : Table String (List Scalar)}

theorem TidyTags.nodup (h : TidyTags byTag) (tag : String) : ((byTag.get? tag).getD []).Nodup := by
  cases row : byTag.get? tag with
  | none => exact List.nodup_nil
  | some members => exact (h.rows tag members row).2

theorem TidyTags.put (h : TidyTags byTag) (tag : String) {members : List Scalar} (filled : members ≠ [])
    (once : members.Nodup) : TidyTags (byTag.put tag members) := by
  refine ⟨Table.nodup_put h.keys _ _, fun t found row => ?_⟩
  rw [Table.get?_put] at row
  split at row
  · cases row
    exact ⟨filled, once⟩
  · exact h.rows t found row

theorem TidyTags.drop (h : TidyTags byTag) (tag : String) : TidyTags (byTag.drop tag) := by
  refine ⟨Table.nodup_drop h.keys _, fun t found row => ?_⟩
  rw [Table.get?_drop] at row
  split at row
  · cases row
  · exact h.rows t found row

end tidyTags

/-- The two maps are inverse to each other, and neither holds anything empty. -/
structure Coherent (x : TagIndex) : Prop where
  mirrored : x.Mirrored
  tidy : TidyTags x.byTag
  filled : ∀ id, x.byNote.get? id ≠ some []

theorem members_addTag : (addTag id x tag).members t =
    if tag = t then Members.insert (x.members tag) id else x.members t := by
  unfold addTag members
  dsimp only
  rw [Table.get?_put]
  split <;> rfl

theorem tagsFor_addTag : (addTag id x tag).tagsFor i =
    if id = i then Members.insert (x.tagsFor id) tag else x.tagsFor i := by
  unfold addTag tagsFor
  dsimp only
  rw [Table.get?_put]
  split <;> rfl

theorem mem_members_addTag : i ∈ (addTag id x tag).members t ↔ i ∈ x.members t ∨ i = id ∧ t = tag := by
  rw [members_addTag]
  split
  · rename_i same
    subst same
    simp
  · rename_i differ
    simp [Ne.symm differ]

theorem mem_tagsFor_addTag : t ∈ (addTag id x tag).tagsFor i ↔ t ∈ x.tagsFor i ∨ i = id ∧ t = tag := by
  rw [tagsFor_addTag]
  split
  · rename_i same
    subst same
    simp
  · rename_i differ
    simp [Ne.symm differ]

theorem mem_members_addTags (tags : List String) :
    i ∈ (x.addTags id tags).members t ↔ i ∈ x.members t ∨ i = id ∧ t ∈ tags := by
  unfold addTags
  induction tags generalizing x with
  | nil => simp
  | cons tag tags ih =>
    rw [List.foldl_cons, ih, mem_members_addTag, List.mem_cons]
    tauto

theorem mem_tagsFor_addTags (tags : List String) :
    t ∈ (x.addTags id tags).tagsFor i ↔ t ∈ x.tagsFor i ∨ i = id ∧ t ∈ tags := by
  unfold addTags
  induction tags generalizing x with
  | nil => simp
  | cons tag tags ih =>
    rw [List.foldl_cons, ih, mem_tagsFor_addTag, List.mem_cons]
    tauto

theorem Mirrored.addTags (h : x.Mirrored) (id : Scalar) (tags : List String) :
    (x.addTags id tags).Mirrored := by
  intro tag i
  rw [mem_members_addTags, mem_tagsFor_addTags, h tag i]

theorem TidyTags.addTags (h : TidyTags x.byTag) (id : Scalar) (tags : List String) :
    TidyTags (x.addTags id tags).byTag := by
  unfold TagIndex.addTags
  induction tags generalizing x with
  | nil => exact h
  | cons tag tags ih => exact ih (h.put tag Members.insert_ne_nil (Members.nodup_insert (h.nodup tag) id))

theorem byNote_addTags_apart (tags : List String) (apart : id ≠ i) :
    (x.addTags id tags).byNote.get? i = x.byNote.get? i := by
  unfold addTags
  induction tags generalizing x with
  | nil => rfl
  | cons tag tags ih =>
    rw [List.foldl_cons, ih]
    dsimp only [addTag]
    rw [Table.get?_put, if_neg apart]

def leave (id : Scalar) (byTag : Table String (List Scalar)) (tag : String) : Table String (List Scalar) :=
  match byTag.get? tag with
  | none => byTag
  | some members =>
    if (members.filter (· ≠ id)).isEmpty then byTag.drop tag else byTag.put tag (members.filter (· ≠ id))

theorem byTag_discard : (discard id x tag).byTag = leave id x.byTag tag := by
  unfold discard leave
  cases x.byTag.get? tag with
  | none => rfl
  | some members => cases x.byNote.get? id <;> rfl

theorem get?_leave (byTag : Table String (List Scalar)) : (leave id byTag tag).get? t =
    if tag = t then ((byTag.get? tag).map (·.filter (· ≠ id))).filter (!·.isEmpty) else byTag.get? t := by
  unfold leave
  by_cases same : tag = t
  · subst same
    rw [if_pos rfl]
    cases row : byTag.get? tag with
    | none => simp [row]
    | some members =>
      dsimp only
      split
      · rename_i empty
        rw [Table.get?_drop, if_pos rfl, Option.map_some, Option.filter_some, empty]
        rfl
      · rename_i filled
        rw [Table.get?_put, if_pos rfl, Option.map_some, Option.filter_some, if_pos (by simpa using filled)]
  · rw [if_neg same]
    cases byTag.get? tag with
    | none => rfl
    | some members =>
      dsimp only
      split
      · rw [Table.get?_drop, if_neg same]
      · rw [Table.get?_put, if_neg same]

theorem members_discard : (discard id x tag).members t =
    if tag = t then (x.members tag).filter (· ≠ id) else x.members t := by
  unfold members
  rw [byTag_discard, get?_leave]
  split
  · cases x.byTag.get? tag with
    | none => rfl
    | some members =>
      rw [Option.map_some, Option.filter_some, Option.getD_some]
      split
      · rfl
      · rename_i empty
        simpa using empty
  · rfl

theorem mem_members_discard : i ∈ (discard id x tag).members t ↔ i ∈ x.members t ∧ ¬ (i = id ∧ t = tag) := by
  rw [members_discard]
  split
  · rename_i same
    subst same
    simp
  · rename_i differ
    simp [Ne.symm differ]

theorem byNote_discard : (discard id x tag).byNote =
    if (x.byTag.get? tag).isSome ∧ (x.byNote.get? id).isSome then
      x.byNote.put id ((x.tagsFor id).filter (· ≠ tag))
    else x.byNote := by
  unfold discard tagsFor
  cases x.byTag.get? tag with
  | none => simp
  | some members =>
    cases row : x.byNote.get? id with
    | none => simp
    | some tags => simp

theorem byNote_discard_apart (apart : id ≠ i) :
    (discard id x tag).byNote.get? i = x.byNote.get? i := by
  rw [byNote_discard]
  split
  · rw [Table.get?_put, if_neg apart]
  · rfl

theorem byNote_discards_apart (tags : List String) (apart : id ≠ i) :
    (tags.foldl (discard id) x).byNote.get? i = x.byNote.get? i := by
  induction tags generalizing x with
  | nil => rfl
  | cons tag tags ih => rw [List.foldl_cons, ih, byNote_discard_apart apart]

theorem byNote_discards_none (tags : List String) (none : x.byNote.get? id = none) :
    (tags.foldl (discard id) x).byNote = x.byNote := by
  induction tags generalizing x with
  | nil => rfl
  | cons tag tags ih =>
    have same : (discard id x tag).byNote = x.byNote := by simp [byNote_discard, none]
    rw [List.foldl_cons, ih (by rw [same, none]), same]

theorem mem_tagsFor_discard (h : x.Mirrored) :
    t ∈ (discard id x tag).tagsFor i ↔ t ∈ x.tagsFor i ∧ ¬ (i = id ∧ t = tag) := by
  by_cases here : id = i
  · subst here
    unfold tagsFor
    rw [byNote_discard]
    split
    · rw [Table.get?_put, if_pos rfl]
      simp [tagsFor]
    · rename_i missing
      refine ⟨fun mem => ⟨mem, ?_⟩, fun both => both.1⟩
      rintro ⟨_, rfl⟩
      have member : id ∈ x.members t := (h t id).2 mem
      refine missing ⟨?_, ?_⟩
      · unfold members at member
        cases row : x.byTag.get? t with
        | none => simp [row] at member
        | some _ => rfl
      · cases row : x.byNote.get? id with
        | none => simp [row] at mem
        | some _ => rfl
  · unfold tagsFor
    rw [byNote_discard_apart here]
    simp [Ne.symm here]

theorem Mirrored.discard (h : x.Mirrored) (id : Scalar) (tag : String) : (discard id x tag).Mirrored := by
  intro t i
  rw [mem_members_discard, mem_tagsFor_discard h, h t i]

theorem mem_members_discards (tags : List String) : i ∈ (tags.foldl (discard id) x).members t ↔
    i ∈ x.members t ∧ ¬ (i = id ∧ t ∈ tags) := by
  induction tags generalizing x with
  | nil => simp
  | cons tag tags ih =>
    rw [List.foldl_cons, ih, mem_members_discard, List.mem_cons]
    tauto

theorem Mirrored.discards (h : x.Mirrored) (id : Scalar) (tags : List String) :
    (tags.foldl (TagIndex.discard id) x).Mirrored ∧ ∀ t i, t ∈ (tags.foldl (TagIndex.discard id) x).tagsFor i ↔
      t ∈ x.tagsFor i ∧ ¬ (i = id ∧ t ∈ tags) := by
  induction tags generalizing x with
  | nil => exact ⟨h, by simp⟩
  | cons tag tags ih =>
    obtain ⟨mirrored, tagsFor⟩ := ih (h.discard id tag)
    refine ⟨mirrored, fun t i => ?_⟩
    rw [List.foldl_cons, tagsFor, mem_tagsFor_discard h, List.mem_cons]
    tauto

theorem TidyTags.discard (h : TidyTags x.byTag) (id : Scalar) (tag : String) :
    TidyTags (discard id x tag).byTag := by
  rw [byTag_discard]
  unfold leave
  cases row : x.byTag.get? tag with
  | none => exact h
  | some members =>
    dsimp only
    split
    · exact h.drop tag
    · rename_i filled
      exact h.put tag (fun none => filled (List.isEmpty_iff.2 none)) ((h.rows tag members row).2.filter _)

theorem TidyTags.discards (h : TidyTags x.byTag) (id : Scalar) (tags : List String) :
    TidyTags (tags.foldl (TagIndex.discard id) x).byTag :=
  List.foldlRecOn (motive := fun x : TagIndex => TidyTags x.byTag) tags _ h fun _ h tag _ => h.discard id tag

theorem coherent_empty : Coherent {} :=
  ⟨fun _ _ => by simp [members, tagsFor], ⟨List.nodup_nil, by simp⟩, by simp⟩

theorem filled_of_mem {y : TagIndex} (mem : t ∈ y.tagsFor i) : y.byNote.get? i ≠ some [] := by
  intro empty
  simp [tagsFor, empty] at mem

theorem Coherent.addTags (h : x.Coherent) (id : Scalar) (tags : List String) : (x.addTags id tags).Coherent := by
  refine ⟨h.mirrored.addTags id tags, h.tidy.addTags id tags, fun i => ?_⟩
  by_cases here : id = i
  · subst here
    cases tags with
    | nil => exact h.filled id
    | cons tag tags => exact filled_of_mem ((mem_tagsFor_addTags _).2 (Or.inr ⟨rfl, List.mem_cons_self⟩))
  · rw [byNote_addTags_apart tags here]
    exact h.filled i

theorem tagsFor_drop {id : Scalar} (untagged : x.tagsFor id = []) (i : Scalar) :
    (⟨x.byTag, x.byNote.drop id⟩ : TagIndex).tagsFor i = x.tagsFor i := by
  unfold tagsFor at untagged ⊢
  rw [Table.get?_drop]
  split
  · rename_i here
    subst here
    exact untagged.symm
  · rfl

theorem coherent_drop {id : Scalar} (mirrored : x.Mirrored) (tidy : TidyTags x.byTag) (untagged : x.tagsFor id = [])
    (filled : ∀ i, id ≠ i → x.byNote.get? i ≠ some []) : (⟨x.byTag, x.byNote.drop id⟩ : TagIndex).Coherent := by
  refine ⟨fun t i => ?_, tidy, fun i => ?_⟩
  · rw [tagsFor_drop untagged]
    exact mirrored t i
  · dsimp only
    rw [Table.get?_drop]
    split
    · simp
    · rename_i apart
      exact filled i apart

/-- An update gives a note its tags, and leaves other notes alone. -/
theorem Coherent.update (h : x.Coherent) (d : Document) : (x.update d).1.Coherent ∧
    ∀ t i, t ∈ (x.update d).1.tagsFor i ↔ if i = .text d.id then t ∈ d.tags else t ∈ x.tagsFor i := by
  unfold TagIndex.update
  dsimp only
  split
  · rename_i same
    refine ⟨h, fun t i => ?_⟩
    split
    · rename_i here
      subst here
      rw [← Members.same_iff.1 same, Text.mem_distinct]
    · rfl
  · generalize Scalar.text d.id = id
    -- Tags that are gone are taken out and new ones put in; then a row without tags is dropped.
    generalize gone : Members.without (x.tagsFor id) (Text.distinct d.tags) = old
    generalize come : Members.without (Text.distinct d.tags) (x.tagsFor id) = new
    obtain ⟨mirrored, dropped⟩ := h.mirrored.discards id old
    have tags : ∀ t i, t ∈ ((old.foldl (discard id) x).addTags id new).tagsFor i ↔
        if i = id then t ∈ d.tags else t ∈ x.tagsFor i := by
      intro t i
      rw [mem_tagsFor_addTags, dropped, ← gone, ← come]
      simp only [Members.mem_without, Text.mem_distinct]
      split
      · rename_i here
        subst here
        tauto
      · rename_i apart
        tauto
    have others : ∀ i, id ≠ i →
        ((old.foldl (discard id) x).addTags id new).byNote.get? i = x.byNote.get? i := fun i apart => by
      rw [byNote_addTags_apart new apart, byNote_discards_apart old apart]
    have mirrored := mirrored.addTags id new
    have tidy := (h.tidy.discards id old).addTags id new
    revert tags others mirrored tidy
    generalize (old.foldl (discard id) x).addTags id new = y
    intro tags others mirrored tidy
    split
    · rename_i none
      have untagged : y.tagsFor id = [] := by
        refine List.eq_nil_iff_forall_not_mem.2 fun t mem => ?_
        have kept := (Text.mem_distinct _ t).2 (by simpa using (tags t id).1 mem)
        rw [List.isEmpty_iff.1 none] at kept
        cases kept
      refine ⟨coherent_drop mirrored tidy untagged fun i apart => ?_, fun t i => ?_⟩
      · rw [others i apart]
        exact h.filled i
      · rw [tagsFor_drop untagged]
        exact tags t i
    · rename_i tagged
      refine ⟨⟨mirrored, tidy, fun i => ?_⟩, tags⟩
      by_cases here : id = i
      · subst here
        obtain ⟨t, mem⟩ := List.exists_mem_of_ne_nil _ (fun none => tagged (List.isEmpty_iff.2 none))
        exact filled_of_mem ((tags t id).2 (by simpa using mem))
      · rw [others i here]
        exact h.filled i

theorem Coherent.remove (h : x.Coherent) (id : Scalar) : (x.remove id).1.Coherent ∧
    ∀ t i, t ∈ (x.remove id).1.tagsFor i ↔ i ≠ id ∧ t ∈ x.tagsFor i := by
  have gone : (x.byNote.drop id).get? id = none := by rw [Table.get?_drop, if_pos rfl]
  have same : (x.remove id).1 = (x.tagsFor id).foldl (discard id) ⟨x.byTag, x.byNote.drop id⟩ := by
    unfold TagIndex.remove
    dsimp only
    split
    · rename_i none
      rw [List.isEmpty_iff.1 none]
      rfl
    · rfl
  have rows := byNote_discards_none (x := ⟨x.byTag, x.byNote.drop id⟩) (x.tagsFor id) gone
  have tags : ∀ t i, t ∈ (x.remove id).1.tagsFor i ↔ i ≠ id ∧ t ∈ x.tagsFor i := by
    intro t i
    rw [same, tagsFor, rows, Table.get?_drop]
    split
    · rename_i here
      simp [here]
    · rename_i apart
      simp [Ne.symm apart, tagsFor]
  refine ⟨⟨fun tag i => ?_, ?_, fun i => ?_⟩, tags⟩
  · rw [tags, same, mem_members_discards, ← h.mirrored tag i]
    have mirror := h.mirrored tag id
    constructor
    · rintro ⟨mem, apart⟩
      refine ⟨?_, mem⟩
      rintro rfl
      exact apart ⟨rfl, mirror.1 mem⟩
    · exact fun both => ⟨both.2, fun here => both.1 here.1⟩
  · rw [same]
    exact TidyTags.discards (x := ⟨x.byTag, x.byNote.drop id⟩) h.tidy id _
  · rw [same, rows, Table.get?_drop]
    split
    · simp
    · exact h.filled i

theorem mem_renamed {old new : Scalar} {byTag : Table String (List Scalar)} (tags : List String) :
    i ∈ ((tags.foldl (renameIn old new) byTag).get? t).getD [] ↔
      if t ∈ tags then i ∈ (byTag.get? t).getD [] ∧ i ≠ old ∨ i = new else i ∈ (byTag.get? t).getD [] := by
  induction tags generalizing byTag with
  | nil => simp
  | cons tag tags ih =>
    have step : i ∈ ((renameIn old new byTag tag).get? t).getD [] ↔
        if tag = t then i ∈ (byTag.get? t).getD [] ∧ i ≠ old ∨ i = new else i ∈ (byTag.get? t).getD [] := by
      unfold renameIn
      rw [Table.get?_put]
      split
      · rename_i same
        subst same
        simp
      · rfl
    rw [List.foldl_cons, ih, step]
    by_cases here : tag = t
    · subst here
      simp only [if_true, List.mem_cons, true_or]
      split
      · tauto
      · rfl
    · have apart : ¬ t = tag := fun same => here same.symm
      simp [here, apart]

theorem TidyTags.renamed {byTag : Table String (List Scalar)} (h : TidyTags byTag) (old new : Scalar)
    (tags : List String) : TidyTags (tags.foldl (renameIn old new) byTag) :=
  List.foldlRecOn tags _ h fun _ h tag _ =>
    h.put tag Members.insert_ne_nil (Members.nodup_insert ((h.nodup tag).filter _) new)

def renamed (x : TagIndex) (old new : Scalar) : TagIndex :=
  ⟨(x.tagsFor old).foldl (renameIn old new) x.byTag, (x.byNote.drop old).put new (x.tagsFor old)⟩

theorem rename_eq {old : Scalar} (tagged : x.tagsFor old ≠ []) (new : Scalar) :
    (x.rename old new).1 = x.renamed old new := by
  unfold TagIndex.rename
  dsimp only
  rw [if_neg fun none => tagged (List.isEmpty_iff.1 none)]
  rfl

theorem tagsFor_renamed (x : TagIndex) (old new i : Scalar) : (x.renamed old new).tagsFor i =
    if new = i then x.tagsFor old else if old = i then [] else x.tagsFor i := by
  unfold renamed tagsFor
  rw [Table.get?_put, Table.get?_drop]
  split
  · rfl
  · split <;> rfl

theorem mem_members_renamed (x : TagIndex) (old new : Scalar) : i ∈ (x.renamed old new).members t ↔
    if t ∈ x.tagsFor old then i ∈ x.members t ∧ i ≠ old ∨ i = new else i ∈ x.members t :=
  mem_renamed (x.tagsFor old)

/-- Tags of the new path that the renamed note does not have are listed for it by the tags only. -/
theorem Mirrored.covers (h : x.Mirrored) {old new : Scalar} (after : (x.renamed old new).Mirrored) :
    ∀ t ∈ x.tagsFor new, t ∈ x.tagsFor old := by
  intro t mem
  by_contra other
  have member : new ∈ (x.renamed old new).members t :=
    (mem_members_renamed x old new).2 (by rw [if_neg other]; exact (h t new).2 mem)
  have back := (after t new).1 member
  rw [tagsFor_renamed, if_pos rfl] at back
  exact other back

theorem Mirrored.renamed (h : x.Mirrored) {old new : Scalar} (covered : ∀ t ∈ x.tagsFor new, t ∈ x.tagsFor old) :
    (x.renamed old new).Mirrored := by
  intro t i
  rw [tagsFor_renamed, mem_members_renamed, h t i]
  by_cases here : new = i
  · subst here
    rw [if_pos rfl]
    by_cases mem : t ∈ x.tagsFor old
    · simp [mem]
    · simpa [mem] using fun known => mem (covered t known)
  · rw [if_neg here]
    by_cases there : old = i
    · subst there
      by_cases mem : t ∈ x.tagsFor old <;> simp [mem, Ne.symm here]
    · by_cases mem : t ∈ x.tagsFor old <;> simp [mem, there, Ne.symm here, Ne.symm there]

/-- A renaming keeps the maps inverse to each other just if the note has no tags, or all the tags that
are known at its new path. -/
theorem Coherent.rename_iff (h : x.Coherent) (old new : Scalar) : (x.rename old new).1.Coherent ↔
    x.tagsFor old = [] ∨ ∀ t ∈ x.tagsFor new, t ∈ x.tagsFor old := by
  by_cases none : x.tagsFor old = []
  · have same : (x.rename old new).1 = ⟨x.byTag, x.byNote.drop old⟩ := by
      unfold TagIndex.rename
      simp [none]
    rw [same]
    exact ⟨fun _ => Or.inl none, fun _ => coherent_drop h.mirrored h.tidy none fun i _ => h.filled i⟩
  · rw [rename_eq none, or_iff_right none]
    refine ⟨fun coherent => h.mirrored.covers coherent.mirrored, fun covered =>
      ⟨h.mirrored.renamed covered, h.tidy.renamed old new _, fun i => ?_⟩⟩
    unfold TagIndex.renamed
    dsimp only
    rw [Table.get?_put, Table.get?_drop]
    split
    · exact fun empty => none (Option.some.inj empty)
    · split
      · simp
      · exact h.filled i

end TagIndex
end VaultSchema
