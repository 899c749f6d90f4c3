import Mathlib
import VaultSchema.Proofs.Note.Tags
import VaultSchema.Proofs.Query.Grammar
import VaultSchema.Proofs.Query.Indexes

/-! Looking up a tag in the index against matching it with the tags of the notes. The lookup takes
tags as they are stored and the matching takes blanks and number signs off both sides, so they agree
on bare tags. -/

set_option autoImplicit false

namespace VaultSchema

def indexed (tag name : String) : Bool := tag == bareTag name || Folder.isBelow tag (bareTag name)

theorem tagMatches_eq_indexed {t : String} (bare : bareTag t = t) (name : String) :
    tagMatches t name = indexed t name := by
  rw [tagMatches, bare, indexed]

section changed

theorem count_dropWhile {p : Char → Bool} {c : Char} (other : p c = false) (cs : List Char) :
    (cs.dropWhile p).count c = cs.count c := by
  induction cs with
  | nil => rfl
  | cons d rest ih =>
    rw [List.dropWhile_cons]
    split
    · rename_i taken
      have differs : d ≠ c := by
        rintro rfl
        simp [other] at taken
      rw [ih, List.count_cons_of_ne differs]
    · rfl

theorem count_trimList {p : Char → Bool} {c : Char} (other : p c = false) (cs : List Char) :
    (Text.trimList p cs).count c = cs.count c := by
  simp [Text.trimList, count_dropWhile other]

variable {t : String}

/-- The name that a tag has where it is matched, with a number sign in front to stay as it is. -/
def sharpened (t : String) : String := String.ofList ('#' :: (bareTag t).toList)

theorem count_bareTag (t : String) : (bareTag t).toList.count '/' = t.toList.count '/' := by
  rw [toList_bareTag, count_dropWhile (by decide), count_trimList (by decide)]

theorem bareTag_last (t : String) : ∀ c ∈ (bareTag t).toList.getLast?, Text.isBlank c = false := by
  intro c mem
  refine (Text.trimmed_trimList Text.isBlank t.toList).2 c ?_
  rw [toList_bareTag] at mem
  obtain ⟨front, whole⟩ := List.dropWhile_suffix (l := Text.trimList Text.isBlank t.toList) (· == '#')
  rw [← whole, List.getLast?_append, mem]
  rfl

theorem trimmed_sharpened (t : String) : Text.Trimmed Text.isBlank (sharpened t).toList := by
  have last := bareTag_last t
  rw [sharpened, String.toList_ofList]
  constructor
  · rintro c ⟨⟩
    decide
  · cases left : (bareTag t).toList with
    | nil =>
      rintro c ⟨⟩
      decide
    | cons c rest => simpa [left, List.getLast?_cons_cons] using last

theorem bareTag_sharpened (t : String) : bareTag (sharpened t) = bareTag t := by
  rw [← String.toList_inj, toList_bareTag, Text.trimList_eq_self (trimmed_sharpened t), sharpened, String.toList_ofList,
    List.dropWhile_cons_of_pos (by decide), toList_bareTag]
  exact Text.dropWhile_eq_self (Text.head?_dropWhile _ _)

theorem conditionOfText_sharpened (t : String) (column : Nat) :
    Query.conditionOfText ("#" ++ sharpened t) column = .ok (.tag (sharpened t)) := by
  have trimmed : Text.trim (sharpened t) = sharpened t := by
    rw [← String.toList_inj, Text.toList_trim, Text.trimList_eq_self (trimmed_sharpened t)]
  have outer : (Text.trim ("#" ++ sharpened t)).toList = '#' :: (sharpened t).toList := by
    have last := (trimmed_sharpened t).2
    rw [Text.toList_trim, String.toList_append]
    refine Text.trimList_eq_self ⟨?_, ?_⟩
    · rintro c ⟨⟩
      decide
    · simpa [sharpened, List.getLast?_cons_cons] using last
  have name : (sharpened t).isEmpty = false := by simp [sharpened]
  simp [Query.conditionOfText, outer, trimmed, name]

/-- A tag that is not bare is matched by a name that does not find it. -/
theorem sharpened_missed (changed : bareTag t ≠ t) :
    tagMatches t (sharpened t) = true ∧ indexed t (sharpened t) = false := by
  rw [tagMatches, indexed, bareTag_sharpened]
  refine ⟨by simp, ?_⟩
  by_contra found
  simp only [Bool.not_eq_false, Bool.or_eq_true, beq_iff_eq, Ne.symm changed, false_or, Folder.isBelow,
    Text.beginsWith, List.isPrefixOf_iff_prefix] at found
  have more := found.sublist.count_le '/'
  simp [count_bareTag] at more

end changed

namespace TagIndex

variable {s : NoteStore} {i : Scalar}

theorem mem_withTag_ofNotes {name : String} : i ∈ (ofNotes s).withTag name ↔
    ∃ d ∈ s.notes, i = .text d.id ∧ ∃ t ∈ d.tags, indexed t name = true := by
  have current := current_ofNotes s
  rw [mem_withTag current.coherent.tidy]
  simp only [current.mem_members]
  constructor
  · rintro ⟨t, fits, d, mem, own, tagged⟩
    exact ⟨d, mem, own, t, tagged, fits⟩
  · rintro ⟨d, mem, own, t, tagged, fits⟩
    exact ⟨t, fits, d, mem, own, tagged⟩

/-- Looking up a name finds the notes with a tag that it matches, as long as the notes were made of
settled texts. -/
theorem withTag_exact (settled : ∀ d ∈ s.notes, ∃ texts, d.TaggedBy texts ∧ ∀ u ∈ texts, Tags.Settled u)
    (name : String) (i : Scalar) :
    i ∈ (ofNotes s).withTag name ↔ ∃ d ∈ s.notes, i = .text d.id ∧ hasTag d.tags name = true := by
  rw [mem_withTag_ofNotes]
  refine exists_congr fun d => and_congr_right fun mem => and_congr_right fun _ => ?_
  obtain ⟨texts, tagged, settled⟩ := settled d mem
  simp only [hasTag, List.any_eq_true]
  refine exists_congr fun t => and_congr_right fun own => ?_
  rw [tagMatches_eq_indexed (tagged.bare settled t own)]

/-- A note whose only tag is not bare is missed by a name that a query can ask for. -/
theorem exists_missed {d : Document} {t : String} (tags : d.tags = [t]) (changed : bareTag t ≠ t) :
    ∃ name, (∀ column, Query.conditionOfText ("#" ++ name) column = .ok (.tag name)) ∧
      hasTag d.tags name = true ∧ .text d.id ∉ (ofNotes ⟨[d]⟩).withTag name := by
  obtain ⟨fits, missed⟩ := sharpened_missed changed
  refine ⟨sharpened t, conditionOfText_sharpened t, by simp [hasTag, tags, fits], ?_⟩
  simp [mem_withTag_ofNotes, tags, missed]

def dune : Document := .make "Dune.md" none ["#book/fiction", "/read/"] none none

theorem withTag_exact_dune :
    dune.TaggedBy ["#book/fiction", "/read/"] ∧ (∀ u ∈ ["#book/fiction", "/read/"], Tags.Settled u) ∧
      .text "Dune.md" ∈ (ofNotes ⟨[dune]⟩).withTag "book" := by
  have tagged : dune.TaggedBy ["#book/fiction", "/read/"] := .made "Dune.md" none none none
  have settled : ∀ u ∈ ["#book/fiction", "/read/"], Tags.Settled u := by decide +kernel
  refine ⟨tagged, settled, ?_⟩
  have made : ∀ d ∈ [dune], ∃ texts, d.TaggedBy texts ∧ ∀ u ∈ texts, Tags.Settled u := by
    simpa using ⟨_, tagged, settled⟩
  exact (@withTag_exact ⟨[dune]⟩ made "book" _).2 ⟨dune, by simp, rfl, by decide +kernel⟩

def spaced : Document := .make "a.md" none ["# x"] none none

/-- A blank between the number sign and the name stays in the stored tag, and the lookup misses the
note, though it has the tag that the query asks for. -/
theorem blank_behind_sign :
    Query.read "#x" = .ok ⟨"#x", [⟨[.tag "x"], []⟩]⟩ ∧ hasTag spaced.tags "x" = true ∧
      .text spaced.id ∉ (ofNotes ⟨[spaced]⟩).withTag "x" := by
  have lexed : Query.tokenize "#x" = .ok ([⟨.word, "#x", 1, false⟩] ++ [⟨.finish, "", 3, false⟩]) := by cbv
  have tags : spaced.tags = [" x"] := by decide +kernel
  refine ⟨Query.read_words lexed (by simp) (by simp) (by rfl), by decide +kernel, ?_⟩
  have missed : indexed " x" "x" = false := by decide +kernel
  simp [mem_withTag_ofNotes, tags, missed]

end TagIndex

end VaultSchema
