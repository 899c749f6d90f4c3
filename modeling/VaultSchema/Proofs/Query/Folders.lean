import Mathlib
import VaultSchema.Proofs.Query.Grammar
import VaultSchema.Proofs.Text.Trim
import VaultSchema.Note.Store

/-! Folders that queries name. A condition compares a note's folder with its path as it stands,
while a listing normalizes the path once more. The two agree on all notes exactly where the path has
no blanks around it; normalizing takes blanks off only outside the slashes. -/

set_option autoImplicit false

namespace VaultSchema

namespace Folder

variable {path folder : String}

theorem slashes_eq_self (free : '\\' ∉ path.toList) : slashes path = path := by
  rw [← String.toList_inj, slashes, Text.replaceChar, String.toList_ofList]
  have same : ∀ c ∈ path.toList, (if c == '\\' then '/' else c) = id c := by
    intro c mem
    have other : c ≠ '\\' := fun same => free (same ▸ mem)
    simp [other]
  rw [List.map_congr_left same, List.map_id]

theorem toList_normalize (path : String) :
    (normalize path).toList = Text.trimList (· == '/') (Text.trimList Text.isBlank (slashes path).toList) := by
  simp [normalize]

theorem normalize_isInfix (path : String) : (normalize path).toList <:+: (slashes path).toList := by
  rw [toList_normalize]
  exact (Text.trimList_isInfix _ _).trans (Text.trimList_isInfix _ _)

theorem backslash_not_mem_normalize (path : String) : '\\' ∉ (normalize path).toList := by
  intro mem
  have := (normalize_isInfix path).subset mem
  simp only [slashes, Text.replaceChar, String.toList_ofList, List.mem_map] at this
  obtain ⟨c, _, same⟩ := this
  split at same <;> simp_all

/-- A normalized path is normalized again to itself exactly when it has no blanks around it. -/
theorem normalize_normalize_iff : normalize (normalize path) = normalize path ↔
    Text.trim (normalize path) = normalize path := by
  have free := slashes_eq_self (backslash_not_mem_normalize path)
  have trimmed : Text.Trimmed (· == '/') (normalize path).toList := by
    rw [toList_normalize]
    exact Text.trimmed_trimList _ _
  rw [← String.toList_inj, ← String.toList_inj, toList_normalize (normalize path), free, Text.toList_trim]
  constructor
  · intro same
    have inner := Text.trimList_isInfix Text.isBlank (normalize path).toList
    have outer := Text.trimList_isInfix (· == '/') (Text.trimList Text.isBlank (normalize path).toList)
    rw [same] at outer
    exact inner.eq_of_length_le outer.length_le
  · intro same
    rw [same, Text.trimList_eq_self trimmed]

theorem length_normalize_lt (other : normalize (normalize path) ≠ normalize path) :
    (normalize (normalize path)).toList.length < (normalize path).toList.length := by
  have inner := normalize_isInfix (normalize path)
  rw [slashes_eq_self (backslash_not_mem_normalize path)] at inner
  refine Nat.lt_of_le_of_ne inner.length_le fun same => other ?_
  exact String.toList_inj.1 (inner.eq_of_length same)

theorem parent_child (free : '\\' ∉ folder.toList) : parent (folder ++ "/x") = folder := by
  have same : slashes (folder ++ "/x") = folder ++ "/x" := slashes_eq_self (by simpa using free)
  rw [parent, same, ← String.toList_inj]
  simp

theorem isBelow_child (folder : String) : isBelow (folder ++ "/x") folder = true := by
  simp [isBelow, Text.beginsWith]

theorem not_isBelow_child (longer : folder.toList.length < path.toList.length) :
    isBelow (folder ++ "/x") path = false := by
  by_contra below
  simp only [isBelow, Text.beginsWith, Bool.not_eq_false, List.isPrefixOf_iff_prefix] at below
  have bound : path.toList.length + 1 ≤ folder.toList.length + 2 := by simpa using below.length_le
  have whole := below.eq_of_length (by simp; omega)
  have last := congrArg List.getLast? whole
  simp at last

end Folder

namespace Condition

/-- The folder that a condition names, and whether notes at any depth below it count. -/
def place? : Condition → Option (String × Bool)
  | .folder path => some (path, false)
  | .below path => some (path, true)
  | .all | .tag _ => none

theorem isIn_eq_holds {k : Condition} {path : String} {recursive : Bool} (place : k.place? = some (path, recursive))
    (same : Folder.normalize path = path) (d : Document) : d.isIn path recursive = k.holds d := by
  cases k with
  | all | tag name => simp [place?] at place
  | folder p | below p =>
    simp only [place?, Option.some.injEq, Prod.mk.injEq] at place
    obtain ⟨rfl, rfl⟩ := place
    simp [Document.isIn, holds, same]

/-- Where a path is normalized to another one, a note in the other folder is listed and does not
satisfy the condition. -/
theorem exists_isIn_of_changed {k : Condition} {path : String} {recursive : Bool}
    (place : k.place? = some (path, recursive)) (normal : ∃ text, path = Folder.normalize text)
    (changed : Folder.normalize path ≠ path) :
    ∃ d : Document, d.isIn path recursive = true ∧ k.holds d = false := by
  obtain ⟨text, rfl⟩ := normal
  have shorter := Folder.length_normalize_lt changed
  have child := Folder.parent_child (Folder.backslash_not_mem_normalize (Folder.normalize text))
  refine ⟨⟨Folder.normalize (Folder.normalize text) ++ "/x", none, [], none, none⟩, ?_⟩
  cases k with
  | all | tag name => simp [place?] at place
  | folder p =>
    simp only [place?, Option.some.injEq, Prod.mk.injEq] at place
    obtain ⟨rfl, rfl⟩ := place
    simp [Document.isIn, Document.folder, holds, child, changed]
  | below p =>
    simp only [place?, Option.some.injEq, Prod.mk.injEq] at place
    obtain ⟨rfl, rfl⟩ := place
    have nonempty : Folder.normalize text ≠ "" := by
      intro empty
      simp [empty] at shorter
    simp [Document.isIn, holds, Folder.isBelow_child, Folder.not_isBelow_child shorter, nonempty]

end Condition

namespace Query

def conditions (q : Query) : List Condition := q.segments.flatMap fun g => g.required ++ g.excluded

theorem normal_of_conditionOfText {text path : String} {column : Nat} {k : Condition} {recursive : Bool}
    (states : conditionOfText text column = .ok k) (place : k.place? = some (path, recursive)) :
    ∃ text, path = Folder.normalize text := by
  unfold conditionOfText at states
  dsimp only at states
  split at states
  · cases states
    simp [Condition.place?] at place
  · split at states
    · split at states <;> cases states
      simp [Condition.place?] at place
    · split at states <;> obtain rfl := Except.ok.inj states <;>
        exact ⟨_, (congrArg Prod.fst (Option.some.inj place)).symm⟩

/-- A condition of a query holds of exactly the notes in its folder, as far as the folder's path has
no blanks around it, and of these the listing of the folder consists. -/
theorem folder_condition_iff {text path : String} {q : Query} {k : Condition} {recursive : Bool}
    (reads : read text = .ok q) (mem : k ∈ q.conditions) (place : k.place? = some (path, recursive)) :
    ((∀ d, k.holds d = d.isIn path recursive) ↔ Text.trim path = path) ∧
      (Text.trim path = path → ∀ s : NoteStore, s.inFolder path recursive = s.listed.filter k.holds) := by
  obtain ⟨g, segment, mem⟩ := List.mem_flatMap.1 mem
  obtain ⟨run, states⟩ := exists_stated reads segment mem
  obtain ⟨_, rfl⟩ := normal_of_conditionOfText states place
  rw [← Folder.normalize_normalize_iff]
  have agrees := Condition.isIn_eq_holds place
  refine ⟨⟨?_, fun same d => (agrees same d).symm⟩, ?_⟩
  · intro holds
    by_contra changed
    obtain ⟨d, inside, fails⟩ := Condition.exists_isIn_of_changed place ⟨_, rfl⟩ changed
    simp [← holds, fails] at inside
  · intro same s
    exact List.filter_congr fun d _ => agrees same d

/-- A blank inside a path is no exception. -/
theorem folder_condition_iff_inner :
    read "Old notes/*" = .ok ⟨"Old notes/*", [⟨[.below "Old notes"], []⟩]⟩ ∧
      ∀ s : NoteStore, s.inFolder "Old notes" true = s.listed.filter (Condition.below "Old notes").holds := by
  have lexed : tokenize "Old notes/*" =
      .ok ([⟨.word, "Old", 1, false⟩, ⟨.word, "notes/*", 5, false⟩] ++ [⟨.finish, "", 12, false⟩]) := by cbv
  have reads := read_words (k := .below "Old notes") lexed (by simp) (by simp) (by rfl)
  obtain ⟨_, listed⟩ := folder_condition_iff (k := .below "Old notes") reads (by decide) rfl
  exact ⟨reads, listed (by decide +kernel)⟩

/-- The slash in front of a path keeps the blank behind it, which the listing then takes off: it has
none of the notes that the condition holds of. -/
theorem blank_behind_slash :
    read "/ a" = .ok ⟨"/ a", [⟨[.folder " a"], []⟩]⟩ ∧
      ∃ d : Document, (Condition.folder " a").holds d = true ∧ d.isIn " a" false = false := by
  have lexed : tokenize "/ a" =
      .ok ([⟨.word, "/", 1, false⟩, ⟨.word, "a", 3, false⟩] ++ [⟨.finish, "", 4, false⟩]) := by cbv
  refine ⟨read_words lexed (by simp) (by simp) (by rfl), ⟨" a/x.md", none, [], none, none⟩, by decide +kernel⟩

end Query

end VaultSchema
