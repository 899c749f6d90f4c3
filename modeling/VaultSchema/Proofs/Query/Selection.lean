import VaultSchema.Query.Selection
import VaultSchema.Proofs.Index.Rows
import VaultSchema.Proofs.Note.Store
import VaultSchema.Proofs.Outcome
import VaultSchema.Proofs.Query.Reading
import VaultSchema.Proofs.Text.Order

/-! Selection by candidates. Nothing stale is selected, and nothing is missed as long as every
required condition finds the notes that satisfy it; there is a list just if the candidates have an
order. -/

set_option autoImplicit false

namespace VaultSchema.Catalog

open TagIndex

/-- Looking up a required condition of a query finds every note that satisfies it. -/
def Covers (c : Catalog) (q : Query) : Prop :=
  ∀ g ∈ q.segments, ∀ k ∈ g.required, ∀ d, c.notes.Has d → k.holds d = true → .text d.id ∈ c.resolve k

theorem smallest_mem {c : Catalog} {best : Option (List Scalar)} {conditions : List Condition}
    (any : best.isSome ∨ conditions ≠ []) :
    c.smallest best conditions ∈ best.toList ++ conditions.map c.resolve := by
  induction conditions generalizing best with
  | nil =>
    cases best with
    | none => simp at any
    | some b => simp [smallest]
  | cons k rest ih =>
    -- The search goes on from a set of the list, or ends with one that is empty.
    have further : ∀ b ∈ best.toList ++ (k :: rest).map c.resolve,
        (if b.isEmpty then [] else c.smallest (some b) rest) ∈ best.toList ++ (k :: rest).map c.resolve := by
      intro b listed
      split
      · rename_i empty
        rwa [List.isEmpty_iff.1 empty] at listed
      · rcases List.mem_cons.1 (@ih (some b) (Or.inl rfl)) with own | later
        · rwa [own]
        · exact List.mem_append_right _ (List.mem_cons_of_mem _ later)
    unfold smallest
    cases best with
    | none => exact further _ (by simp)
    | some b =>
      refine further _ ?_
      dsimp only
      split <;> simp

/-- The smallest of the sets of conditions is the set of one of them. -/
theorem exists_smallest {c : Catalog} {conditions : List Condition} (nonempty : conditions ≠ []) :
    ∃ k ∈ conditions, c.smallest none conditions = c.resolve k := by
  obtain ⟨k, mem, same⟩ := List.mem_map.1 (@smallest_mem c none conditions (Or.inr nonempty))
  exact ⟨k, mem, same.symm⟩

theorem mem_candidates {c : Catalog} {q : Query} {i : Scalar} :
    i ∈ c.candidates q ↔ ∃ g ∈ q.segments, i ∈ c.smallest none g.required := by
  simp [candidates]

theorem resolve_texts {c : Catalog} (texts : c.index.ListsTexts) (k : Condition) :
    ∀ i ∈ c.resolve k, ∃ id, i = .text id := by
  cases k with
  | tag name =>
    intro i mem
    obtain ⟨r, row, _, listed⟩ := exists_row_of_mem_withTag mem
    exact texts r row i listed
  | all | folder path | below path =>
    intro i mem
    obtain ⟨_, _, rfl⟩ := List.mem_map.1 mem
    exact ⟨_, rfl⟩

theorem candidates_texts {c : Catalog} {q : Query}
    (texts : ∀ g ∈ q.segments, ∀ k ∈ g.required, ∀ i ∈ c.resolve k, ∃ id, i = .text id) :
    ∀ i ∈ c.candidates q, ∃ id, i = .text id := by
  intro i mem
  obtain ⟨g, segment, mem⟩ := mem_candidates.1 mem
  by_cases empty : g.required = []
  · simp [empty, smallest] at mem
  · obtain ⟨k, required, same⟩ := exists_smallest (c := c) empty
    exact texts g segment k required i (same ▸ mem)

theorem sortable_candidates {c : Catalog} {q : Query}
    (texts : ∀ g ∈ q.segments, ∀ k ∈ g.required, ∀ i ∈ c.resolve k, ∃ id, i = .text id) :
    Sortable (c.candidates q) := by
  obtain ⟨ids, same⟩ := exists_paths (candidates_texts texts)
  rw [same]
  exact sortable_texts ids

theorem mem_filterMap_textOf? {ids : List Scalar} {id : String} :
    id ∈ ids.filterMap textOf? ↔ .text id ∈ ids := by
  rw [List.mem_filterMap]
  constructor
  · rintro ⟨i, mem, text⟩
    cases i with
    | text s =>
      cases text
      exact mem
    | _ => cases text
  · exact fun mem => ⟨_, mem, rfl⟩

/-- Sorted members are all texts, of which none is listed twice, or hold no two texts. -/
theorem texts_strict {ids sorted : List Scalar} (nodup : ids.Nodup) (sorts : sortMembers ids = .ok sorted) :
    (sorted.filterMap textOf?).Pairwise (· < ·) := by
  obtain ⟨sortable, perm⟩ := sortMembers_eq_ok sorts
  rcases sortable_iff.1 sortable with few | texts | numbers
  · rw [← perm.length_eq] at few
    match sorted, few with
    | [], _ => exact List.Pairwise.nil
    | [.text s], _ => exact List.pairwise_singleton _ s
    | [.null], _ | [.bool _], _ | [.int _], _ | [.float _], _ | [.date _], _ | [.moment _], _ | [.bytes _], _ =>
      exact List.Pairwise.nil
  · obtain ⟨paths, rfl⟩ := exists_paths (l := ids) fun i mem => by
      cases i with
      | text s => exact ⟨s, rfl⟩
      | _ => cases texts _ mem
    rw [sortMembers_texts] at sorts
    cases sorts
    rw [List.filterMap_map, show textOf? ∘ Scalar.text = some from rfl, List.filterMap_some]
    exact Text.sorted_strict (List.Nodup.of_map _ nodup)
  · have none : sorted.filterMap textOf? = [] := by
      refine List.filterMap_eq_nil_iff.2 fun i mem => ?_
      have number := numbers i (perm.mem_iff.1 mem)
      cases i with
      | text s => cases number
      | _ => rfl
    rw [none]
    exact List.Pairwise.nil

variable {c : Catalog} {q : Query} {s : Schema} {ds : List Document}

theorem select_eq_ok : c.select q = .ok ds ↔ ∃ found, sortMembers (c.candidates q) = .ok found ∧
    (found.filterMap textOf?).filterMap (fun id => (c.notes.find? id).filter q.holds) = ds := by
  unfold select
  rw [Outcome.bind_eq_ok]
  simp only [pure, Except.pure, Except.ok.injEq]

theorem exists_select (h : Sortable (c.candidates q)) : ∃ ds, c.select q = .ok ds := by
  obtain ⟨found, sorts⟩ := h.exists_sorted
  exact ⟨_, select_eq_ok.2 ⟨found, sorts, rfl⟩⟩

theorem select_unsortable (unlike : ¬ Sortable (c.candidates q)) : c.select q = .error .unorderedKeys := by
  unfold select
  rw [sortMembers_unsortable unlike]
  rfl

theorem mem_select (selected : c.select q = .ok ds) {d : Document} :
    d ∈ ds ↔ .text d.id ∈ c.candidates q ∧ c.notes.Has d ∧ q.holds d = true := by
  obtain ⟨found, sorts, rfl⟩ := select_eq_ok.1 selected
  simp only [List.mem_filterMap (f := fun id => (c.notes.find? id).filter q.holds), Option.filter_eq_some_iff,
    mem_filterMap_textOf?, (sortMembers_eq_ok sorts).2.mem_iff]
  constructor
  · rintro ⟨id, mem, found, holds⟩
    have same := NoteStore.id_of_find? found
    exact ⟨same ▸ mem, NoteStore.has_of_find? found, holds⟩
  · rintro ⟨mem, found, holds⟩
    exact ⟨d.id, mem, found, holds⟩

theorem select_strict (selected : c.select q = .ok ds) : ds.Pairwise fun a b => a.id < b.id := by
  obtain ⟨found, sorts, rfl⟩ := select_eq_ok.1 selected
  refine (texts_strict (Text.nodup_distinct _) sorts).filterMap _ ?_
  intro i j less a ha b hb
  simp only [Option.filter_eq_some_iff] at ha hb
  rw [NoteStore.id_of_find? ha.1, NoteStore.id_of_find? hb.1]
  exact less

/-- A note that a covered query selects is a candidate: its segment requires something, and all that
it requires finds the note. -/
theorem mem_candidates_of_holds {d : Document} (covers : c.Covers q) (has : c.notes.Has d)
    (holds : q.holds d = true) : .text d.id ∈ c.candidates q := by
  obtain ⟨g, mem, fits⟩ := List.any_eq_true.1 holds
  simp only [Segment.holds, Bool.and_eq_true, Bool.not_eq_true', List.all_eq_true] at fits
  obtain ⟨⟨nonempty, all⟩, _⟩ := fits
  obtain ⟨k, required, same⟩ := exists_smallest (c := c) (by simpa using nonempty)
  exact mem_candidates.2 ⟨g, mem, same ▸ covers g mem k required d has (all k required)⟩

theorem mem_select_of_holds (selected : c.select q = .ok ds) {d : Document} (covers : c.Covers q)
    (has : c.notes.Has d) (holds : q.holds d = true) : d ∈ ds :=
  (mem_select selected).2 ⟨mem_candidates_of_holds covers has holds, has, holds⟩

end VaultSchema.Catalog

namespace VaultSchema.Schema

variable {s : Schema} {q : Query} {d : Document}

theorem applies_idle (idle : s.isIdle = true) (d : Document) : s.applies d = .ok false := by
  simp [applies, idle, pure, Except.pure]

theorem applies_read (busy : s.isIdle = false) (read : Query.read s.query = .ok q) (d : Document) :
    s.applies d = if q.holds d then s.filterHolds d else .ok false := by
  simp only [applies, busy, read, Except.mapError]
  rfl

end VaultSchema.Schema

namespace VaultSchema.Catalog

open TagIndex

variable {c : Catalog} {s : Schema} {q : Query}

theorem selectFor_idle (idle : s.isIdle = true) : c.selectFor s = .ok [] := by
  simp [selectFor, idle, pure, Except.pure]

theorem selectFor_read (busy : s.isIdle = false) (read : Query.read s.query = .ok q) :
    c.selectFor s = ((c.select q).mapError .value).bind fun found => found.filterM s.filterHolds := by
  simp only [selectFor, busy, read, Except.mapError]
  rfl

theorem selectFor_selected {ds : List Document} (busy : s.isIdle = false) (read : Query.read s.query = .ok q)
    (selected : c.select q = .ok ds) : c.selectFor s = ds.filterM s.filterHolds := by
  rw [selectFor_read busy read, selected]
  rfl

theorem selectFor_unread {f : Query.QueryFault} (busy : s.isIdle = false)
    (read : Query.read s.query = .error f) : c.selectFor s = .error (.query f) := by
  simp only [selectFor, busy, read, Except.mapError]
  rfl

theorem selectFor_sound {ds : List Document} (found : c.selectFor s = .ok ds) :
    ds.Pairwise (fun a b => a.id < b.id) ∧ ∀ d ∈ ds, c.notes.Has d ∧ s.applies d = .ok true := by
  cases idle : s.isIdle with
  | true =>
    rw [selectFor_idle idle] at found
    cases found
    simp
  | false =>
    cases read : Query.read s.query with
    | error f =>
      rw [selectFor_unread idle read] at found
      cases found
    | ok q =>
      cases selected : c.select q with
      | error f =>
        rw [selectFor_read idle read, selected] at found
        cases found
      | ok all =>
        rw [selectFor_selected idle read selected, Outcome.filterM_eq_ok_iff] at found
        obtain ⟨_, rfl⟩ := found
        refine ⟨(select_strict selected).filter _, ?_⟩
        intro d mem
        obtain ⟨mem, kept⟩ := List.mem_filter.1 mem
        obtain ⟨_, has, holds⟩ := (mem_select selected).1 mem
        rw [Schema.applies_read idle read, holds]
        exact ⟨has, Outcome.yes_eq_true.1 kept⟩

theorem selectFor_exact (covers : s.isIdle = true ∨
      ∃ q, Query.read s.query = .ok q ∧ c.Covers q ∧ Sortable (c.candidates q)) :
    match c.selectFor s with
    | .ok ds => ∀ d, d ∈ ds ↔ c.notes.Has d ∧ s.applies d = .ok true
    | .error f => ∃ d, c.notes.Has d ∧ s.applies d = .error f := by
  cases idle : s.isIdle with
  | true =>
    simp [selectFor_idle idle, Schema.applies_idle idle]
  | false =>
    obtain ⟨q, read, covers, sortable⟩ :
        ∃ q, Query.read s.query = .ok q ∧ c.Covers q ∧ Sortable (c.candidates q) := by
      simpa [idle] using covers
    obtain ⟨all, selected⟩ := exists_select sortable
    cases result : c.selectFor s with
    | error f =>
      rw [selectFor_selected idle read selected] at result
      obtain ⟨d, mem, fault⟩ := Outcome.exists_of_filterM_error result
      obtain ⟨_, has, holds⟩ := (mem_select selected).1 mem
      exact ⟨d, has, by rw [Schema.applies_read idle read, holds]; exact fault⟩
    | ok ds =>
      intro d
      refine ⟨(selectFor_sound result).2 d, ?_⟩
      rintro ⟨has, applies⟩
      rw [selectFor_selected idle read selected, Outcome.filterM_eq_ok_iff] at result
      obtain ⟨_, rfl⟩ := result
      rw [Schema.applies_read idle read] at applies
      cases holds : q.holds d with
      | false => simp [holds] at applies
      | true =>
        simp only [holds, if_true] at applies
        exact List.mem_filter.2
          ⟨mem_select_of_holds selected covers has holds, Outcome.yes_eq_true.2 applies⟩

/-- Selection is exact, whatever the index lists, as long as the candidates have an order, and so
always if nothing but texts is listed. Then a query selects only notes of the store that satisfy it,
strictly by path; a query that is covered selects all of them; and a schema whose query is covered
selects just the notes to which it applies. -/
theorem select_exact (c : Catalog) :
    (∀ q, Sortable (c.candidates q) → ∃ ds, c.select q = .ok ds ∧ ds.Pairwise (fun a b => a.id < b.id) ∧
      (∀ d ∈ ds, c.notes.Has d ∧ q.holds d = true) ∧
      (c.Covers q → ∀ d, c.notes.Has d → q.holds d = true → d ∈ ds)) ∧
    (∀ q, ¬ Sortable (c.candidates q) → c.select q = .error .unorderedKeys) ∧
    (c.index.ListsTexts → ∀ q, Sortable (c.candidates q)) ∧
    ∀ s : Schema, (s.isIdle = true ∨ ∃ q, Query.read s.query = .ok q ∧ c.Covers q ∧ Sortable (c.candidates q)) →
      match c.selectFor s with
      | .ok ds => ds.Pairwise (fun a b => a.id < b.id) ∧
          ∀ d, d ∈ ds ↔ c.notes.Has d ∧ s.applies d = .ok true
      | .error f => ∃ d, c.notes.Has d ∧ s.applies d = .error f := by
  refine ⟨fun q sortable => ?_, fun q => select_unsortable, fun texts q => ?_, fun s covers => ?_⟩
  · obtain ⟨ds, selected⟩ := exists_select sortable
    exact ⟨ds, selected, select_strict selected, fun d mem => ((mem_select selected).1 mem).2,
      fun covers d has holds => mem_select_of_holds selected covers has holds⟩
  · exact sortable_candidates fun _ _ k _ => resolve_texts texts k
  · have exact := selectFor_exact covers
    cases selected : c.selectFor s with
    | ok ds =>
      rw [selected] at exact
      exact ⟨(selectFor_sound selected).1, exact⟩
    | error f =>
      rw [selected] at exact
      exact exact

/-- Two notes, and an index that lists a note that is gone and one that lost its tag. -/
def stale : Catalog where
  notes := ⟨[⟨"Dune.md", none, ["book"], none, none⟩, ⟨"Log/Day.md", none, [], none, none⟩]⟩
  index := ⟨⟨[("book", [.text "Gone.md", .text "Dune.md", .text "Log/Day.md"])]⟩, {}⟩

def books : Query := ⟨"#book not Log", [⟨[.tag "book"], [.folder "Log"]⟩]⟩

theorem read_books : Query.read books.source = .ok books := by
  have tag : Query.conditionOfText "#book" 1 = .ok (.tag "book") := by rfl
  have folder : Query.conditionOfText "Log" 11 = .ok (.folder "Log") := by rfl
  have tokens : Query.tokenize "#book not Log" =
      .ok [⟨.word, "#book", 1, false⟩, ⟨.not, "not", 7, false⟩, ⟨.word, "Log", 11, false⟩,
        ⟨.finish, "", 14, false⟩] := by cbv
  simp [Query.read, books, tokens, Query.readSegments_cons, Query.readSegments_nil,
    Query.readSegment, Query.readConditions_step, Query.readExcluded_cons,
    Query.conditionOfWords, Query.Token.isWord, tag, folder, bind, Except.bind, pure, Except.pure]

theorem stale_covers : stale.Covers books := by
  intro g hg k hk d has _
  obtain rfl : g = ⟨[.tag "book"], [.folder "Log"]⟩ := by simpa [books] using hg
  obtain rfl : k = .tag "book" := by simpa using hk
  have mem := NoteStore.mem_of_find? has
  simp only [stale, List.mem_cons, List.not_mem_nil, or_false] at mem
  rcases mem with rfl | rfl <;> decide

theorem stale_texts : stale.index.ListsTexts := by
  simp [stale, ListsTexts]

def bookSchema : Schema := { id := "books", query := books.source, fields := [] }

/-- The notes of a stale index, and an index that lists null beside the path of a book. -/
def unlike : Catalog := ⟨stale.notes, ⟨⟨[("book", [.text "Dune.md", .null])]⟩,
  ⟨[(.text "Dune.md", ["book"]), (.null, ["book"])]⟩⟩⟩

theorem unlike_unsortable : ¬ Sortable (unlike.candidates books) := by decide

/-- The stale entries select nothing, and the note that has the tag is found; members without a common
order cannot be tried in order. -/
theorem select_exact_stale :
    stale.Covers books ∧ stale.index.ListsTexts ∧
      (∃ ds, stale.select books = .ok ds ∧ ∀ d, d ∈ ds ↔ stale.notes.Has d ∧ books.holds d = true) ∧
      (match stale.selectFor bookSchema with
      | .ok ds => ∀ d, d ∈ ds ↔ stale.notes.Has d ∧ bookSchema.applies d = .ok true
      | .error _ => False) ∧
      ¬ Sortable (unlike.candidates books) ∧ unlike.select books = .error .unorderedKeys := by
  obtain ⟨queries, _, textual, schemas⟩ := select_exact stale
  have sortable := textual stale_texts books
  obtain ⟨ds, selected, _, sound, complete⟩ := queries books sortable
  have found := schemas bookSchema (Or.inr ⟨books, read_books, stale_covers, sortable⟩)
  refine ⟨stale_covers, stale_texts,
    ⟨ds, selected, fun d => ⟨sound d, fun h => complete stale_covers d h.1 h.2⟩⟩, ?_,
    unlike_unsortable, (select_exact unlike).2.1 books unlike_unsortable⟩
  split at found
  · exact found.2
  · obtain ⟨d, has, applies⟩ := found
    have busy : bookSchema.isIdle = false := by rfl
    rw [Schema.applies_read busy read_books] at applies
    split at applies <;> cases applies

/-- A stored index may list members that have no order, and a query that finds them faults. -/
theorem unlike_members_fault :
    TagIndex.ofValue? (.mapping [(.text "version", .int TagIndex.version),
        (.text "tags", .mapping [(.text "book", .list [.text "Dune.md", .null])])]) = some unlike.index ∧
      Query.read books.source = .ok books ∧ unlike.select books = .error .unorderedKeys := by
  exact ⟨ofValue?_valueOf [("book", [.text "Dune.md", .null])], read_books, select_unsortable unlike_unsortable⟩

end VaultSchema.Catalog
