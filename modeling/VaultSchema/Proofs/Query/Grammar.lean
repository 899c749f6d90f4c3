import Mathlib
import VaultSchema.Proofs.Outcome
import VaultSchema.Proofs.Query.Reading
import VaultSchema.Proofs.Text.Trim

/-! The grammar of queries, said by cutting: a query at each `or` into segments, a segment at each
`not` into parts, a part at each `and` into runs of words. The reader follows it on the tokens of
every text, so each word lies in one run, and each run states one condition. -/

set_option autoImplicit false

namespace VaultSchema.Query

def cut (k : TokenKind) (ts : List Token) : List (List Token) := ts.splitOnP (·.kind == k)

def joined (run : List Token) : String := " ".intercalate (run.map (·.value))

def column (run : List Token) : Nat := (run.head?.map (·.column)).getD 0

def stated (run : List Token) : Except QueryFault Condition := conditionOfText (joined run) (column run)

/-- The runs of words between one `and` and the next; where there is no word there is no run. -/
def runs (part : List Token) : List (List Token) := (cut .and part).filter (!·.isEmpty)

/-- What comes before the first `not` is required, and what comes behind any is excluded. -/
def segmentOf (ts : List Token) : Except QueryFault Segment := do
  let required ← (runs ((cut .not ts).headD [])).mapM stated
  let excluded ← ((cut .not ts).tail.flatMap runs).mapM stated
  return ⟨required, excluded⟩

/-- The segments between one `or` and the next that require something. -/
def segmentsOf (ts : List Token) : Except QueryFault (List Segment) := do
  return (← (cut .or ts).mapM segmentOf).filter (!·.required.isEmpty)

def allRuns (ts : List Token) : List (List Token) := (cut .or ts).flatMap fun s => (cut .not s).flatMap runs

section cut

variable {k : TokenKind} {front rest ts : List Token} {t : Token}

theorem cut_free (free : ∀ u ∈ ts, u.kind ≠ k) : cut k ts = [ts] :=
  List.splitOnP_eq_singleton fun u mem => by simpa using free u mem

theorem cut_at (free : ∀ u ∈ front, u.kind ≠ k) (separates : t.kind = k) :
    cut k (front ++ t :: rest) = front :: cut k rest :=
  List.splitOnP_append_cons_of_forall_mem (fun u mem => by simpa using free u mem) _ (by simpa using separates) _

theorem exists_cut (k : TokenKind) (ts : List Token) : (∀ u ∈ ts, u.kind ≠ k) ∨
    ∃ front t rest, ts = front ++ t :: rest ∧ (∀ u ∈ front, u.kind ≠ k) ∧ t.kind = k := by
  cases found : ts.find? (·.kind == k) with
  | none => exact Or.inl (by simpa using found)
  | some t =>
    obtain ⟨separates, front, rest, whole, free⟩ := List.find?_eq_some_iff_append.1 found
    exact Or.inr ⟨front, t, rest, whole, by simpa using free, by simpa using separates⟩

theorem cut_induction {P : List Token → Prop} (k : TokenKind)
    (whole : ∀ ts, (∀ u ∈ ts, u.kind ≠ k) → P ts)
    (first : ∀ front t rest, (∀ u ∈ front, u.kind ≠ k) → t.kind = k → P rest → P (front ++ t :: rest))
    (ts : List Token) : P ts := by
  induction n : ts.length using Nat.strongRecOn generalizing ts with
  | ind n ih =>
    rcases exists_cut k ts with free | ⟨front, t, rest, rfl, free, separates⟩
    · exact whole ts free
    · refine first front t rest free separates (ih rest.length ?_ rest rfl)
      simp only [List.length_append, List.length_cons] at n
      omega

end cut

section reading

variable {run part ts stop : List Token}

theorem conditionOfWords_eq (run : List Token) :
    conditionOfWords run = ([run].filter (!·.isEmpty)).mapM stated := by
  cases run with
  | nil => rfl
  | cons t rest => simp [conditionOfWords, stated, joined, column]

theorem runs_free (free : ∀ u ∈ part, u.kind ≠ .and) : runs part = [part].filter (!·.isEmpty) := by
  rw [runs, cut_free free]

theorem runs_at {front rest : List Token} {t : Token} (free : ∀ u ∈ front, u.kind ≠ .and)
    (separates : t.kind = .and) :
    runs (front ++ t :: rest) = [front].filter (!·.isEmpty) ++ runs rest := by
  rw [runs, cut_at free separates, List.filter_cons, runs]
  cases front <;> simp

theorem split_words (words : ∀ u ∈ run, u.kind = .word) (stops : ∀ u ∈ stop.head?, u.kind ≠ .word) :
    (run ++ stop).takeWhile Token.isWord = run ∧ (run ++ stop).dropWhile Token.isWord = stop := by
  have all : ∀ u ∈ run, u.isWord = true := fun u mem => by simp [Token.isWord, words u mem]
  rw [List.takeWhile_append_of_pos all, List.dropWhile_append_of_pos all]
  cases stop with
  | nil => simp
  | cons t rest =>
    have other : t.isWord = false := by simpa [Token.isWord] using stops t rfl
    simp [other]

theorem readConditions_part (kinds : ∀ u ∈ part, u.kind = .word ∨ u.kind = .and)
    (stops : ∀ u ∈ stop.head?, u.kind ≠ .word ∧ u.kind ≠ .and) :
    readConditions (part ++ stop) = (do return (← (runs part).mapM stated, stop)) := by
  induction part using cut_induction .and with
  | whole part free =>
    have words : ∀ u ∈ part, u.kind = .word := fun u mem => (kinds u mem).resolve_right (free u mem)
    obtain ⟨own, behind⟩ := split_words words fun u mem => (stops u mem).1
    rw [readConditions_step, own, behind, conditionOfWords_eq, runs_free free]
    cases stop with
    | nil => rfl
    | cons t rest => simp [(stops t rfl).2]
  | first front t rest free separates ih =>
    have words : ∀ u ∈ front, u.kind = .word := fun u mem =>
      (kinds u (by simp [mem])).resolve_right (free u mem)
    obtain ⟨own, behind⟩ := @split_words front (t :: (rest ++ stop)) words (by simp [separates])
    rw [List.append_assoc, List.cons_append, readConditions_step, own, behind, conditionOfWords_eq,
      runs_at free separates, List.mapM_append]
    simp [separates, ih fun u mem => kinds u (by simp [mem])]

def InSegment (ts : List Token) : Prop := ∀ u ∈ ts, u.kind ≠ .or ∧ u.kind ≠ .finish

/-- The token that stops a segment is an `or` or the end. -/
def Stops (stop : List Token) : Prop := ∀ u ∈ stop.head?, u.kind = .or ∨ u.kind = .finish

theorem part_kinds (inside : InSegment part) (free : ∀ u ∈ part, u.kind ≠ .not) :
    ∀ u ∈ part, u.kind = .word ∨ u.kind = .and := by
  intro u mem
  have := inside u mem
  have := free u mem
  cases kind : u.kind <;> simp_all

theorem Stops.ends_part (h : Stops stop) : ∀ u ∈ stop.head?, u.kind ≠ .word ∧ u.kind ≠ .and := by
  intro u mem
  rcases h u mem with kind | kind <;> simp [kind]

theorem readExcluded_stop (stops : Stops stop) : readExcluded stop = pure ([], stop) := by
  cases stop with
  | nil => exact readExcluded_nil
  | cons t rest =>
    have other : t.kind ≠ .not := by rcases stops t rfl with kind | kind <;> simp [kind]
    rw [readExcluded_cons, if_neg other]
    rfl

theorem readExcluded_parts {t : Token} (inside : InSegment ts) (excludes : t.kind = .not) (stops : Stops stop) :
    readExcluded (t :: (ts ++ stop)) = (do return (← ((cut .not ts).flatMap runs).mapM stated, stop)) := by
  induction ts using cut_induction .not generalizing t with
  | whole ts free =>
    rw [readExcluded_cons, if_pos excludes, readConditions_part (part_kinds inside free) stops.ends_part, cut_free free]
    simp [readExcluded_stop stops]
  | first front u rest free separates ih =>
    have front_inside : InSegment front := fun v mem => inside v (by simp [mem])
    have rest_inside : InSegment rest := fun v mem => inside v (by simp [mem])
    rw [List.append_assoc, List.cons_append, readExcluded_cons, if_pos excludes,
      readConditions_part (part_kinds front_inside free) (by simp [separates]), cut_at free separates,
      List.flatMap_cons, List.mapM_append]
    simp [ih rest_inside separates]

theorem readSegment_part (inside : InSegment ts) (stops : Stops stop) :
    readSegment (ts ++ stop) = (do return (← segmentOf ts, stop)) := by
  rw [readSegment_step]
  rcases exists_cut .not ts with free | ⟨front, t, rest, rfl, free, separates⟩
  · rw [readConditions_part (part_kinds inside free) stops.ends_part, segmentOf, cut_free free]
    simp [readExcluded_stop stops]
  · have front_inside : InSegment front := fun v mem => inside v (by simp [mem])
    have rest_inside : InSegment rest := fun v mem => inside v (by simp [mem])
    rw [List.append_assoc, List.cons_append, readConditions_part (part_kinds front_inside free) (by simp [separates]),
      segmentOf, cut_at free separates]
    simp [readExcluded_parts rest_inside separates stops]

/-- Whatever tokens a segment is read from, only an `or` or the end stops it. -/
theorem readSegment_stops {s : Segment} {after : List Token} (read : readSegment ts = .ok (s, after)) :
    Stops after := by
  have whole := List.takeWhile_append_dropWhile (p := fun u : Token => u.kind != .or && u.kind != .finish) (l := ts)
  have inside : InSegment (ts.takeWhile fun u => u.kind != .or && u.kind != .finish) := by
    intro u mem
    simpa using List.all_eq_true.1 List.all_takeWhile u mem
  have stops : Stops (ts.dropWhile fun u => u.kind != .or && u.kind != .finish) := by
    intro u mem
    have := List.head?_dropWhile_not (fun u : Token => u.kind != .or && u.kind != .finish) ts
    simp_all [or_iff_not_imp_left]
  rw [← whole, readSegment_part inside stops] at read
  obtain ⟨_, _, read⟩ := Outcome.bind_eq_ok.1 read
  cases read
  exact stops

end reading

section lexing

def Ended (ts : List Token) : Prop :=
  ∃ body last, ts = body ++ [last] ∧ last.kind = .finish ∧ ∀ u ∈ body, u.kind ≠ .finish

theorem Ended.cons {ts : List Token} (h : Ended ts) {t : Token} (going : t.kind ≠ .finish) : Ended (t :: ts) := by
  obtain ⟨body, last, rfl, ends, free⟩ := h
  exact ⟨t :: body, last, rfl, ends, by simp [going]; exact free⟩

theorem kindOf_ne_finish (word : List Char) : kindOf word ≠ .finish := by
  unfold kindOf
  split <;> simp

theorem tokensFrom_ended {size : Nat} {cs : List Char} {ts : List Token}
    (lexed : tokensFrom size cs = .ok ts) : Ended ts := by
  fun_induction tokensFrom size cs generalizing ts with
  | case1 =>
    cases lexed
    exact ⟨[], _, rfl, rfl, by simp⟩
  | case2 => cases lexed
  | case3 =>
    rename_i ih
    obtain ⟨rest, more, lexed⟩ := Outcome.bind_eq_ok.1 lexed
    cases lexed
    exact (ih more).cons (by simp)
  | case4 =>
    rename_i ih
    obtain ⟨rest, more, lexed⟩ := Outcome.bind_eq_ok.1 lexed
    cases lexed
    exact (ih more).cons (kindOf_ne_finish _)

end lexing

def kept (s : Segment) (others : List Segment) : List Segment := if s.required.isEmpty then others else s :: others

theorem segmentsOf_free {ts : List Token} (free : ∀ u ∈ ts, u.kind ≠ .or) :
    segmentsOf ts = (do return kept (← segmentOf ts) []) := by
  rw [segmentsOf, cut_free free]
  simp [kept, List.filter_cons]

theorem segmentsOf_at {front rest : List Token} {t : Token} (free : ∀ u ∈ front, u.kind ≠ .or)
    (separates : t.kind = .or) :
    segmentsOf (front ++ t :: rest) = (do
      let s ← segmentOf front
      return kept s (← segmentsOf rest)) := by
  rw [segmentsOf, cut_at free separates, segmentsOf]
  simp [kept, List.filter_cons]

theorem readSegments_go {ts : List Token} (going : ∃ t ∈ ts.head?, t.kind ≠ .finish) :
    readSegments ts = (do
      let s ← readSegment ts
      return kept s.1 (← readSegments s.2.tail)) := by
  cases ts with
  | nil => simp at going
  | cons t more =>
    rw [readSegments_cons, if_neg (by simpa using going)]
    rfl

theorem readSegments_body {body : List Token} {last : Token} (ends : last.kind = .finish)
    (going : ∀ u ∈ body, u.kind ≠ .finish) : readSegments (body ++ [last]) = segmentsOf body := by
  induction body using cut_induction .or with
  | whole body free =>
    cases body with
    | nil =>
      rw [List.nil_append, readSegments_cons, if_pos ends]
      rfl
    | cons t more =>
      have inside : InSegment (t :: more) := fun u mem => ⟨free u mem, going u mem⟩
      rw [readSegments_go ⟨t, rfl, going t (by simp)⟩, readSegment_part inside (by simp [Stops, ends]),
        segmentsOf_free free]
      simp [show readSegments [] = pure [] from readSegments_nil]
  | first front t rest free separates ih =>
    have inside : InSegment front := fun u mem => ⟨free u mem, going u (by simp [mem])⟩
    have stops : Stops (t :: (rest ++ [last])) := by simp [Stops, separates]
    have first : ∃ u ∈ (front ++ t :: rest ++ [last]).head?, u.kind ≠ .finish := by
      cases front with
      | nil => exact ⟨t, rfl, by simp [separates]⟩
      | cons u _ => exact ⟨u, rfl, going u (by simp)⟩
    rw [readSegments_go first, List.append_assoc, List.cons_append, readSegment_part inside stops,
      segmentsOf_at free separates]
    simp [ih fun u mem => going u (by simp [mem])]

section faults

theorem trim_tail_isEmpty_iff {c : Char} {rest : List Char} (ends : Text.Trimmed Text.isBlank (c :: rest)) :
    (Text.trim (String.ofList rest)).isEmpty = true ↔ rest = [] := by
  rw [String.isEmpty_iff, ← String.toList_inj]
  simp only [Text.toList_trim, String.toList_ofList, String.toList_empty, Text.trimList_eq_nil_iff]
  cases rest with
  | nil => simp
  | cons d more =>
    have last := ends.2
    rw [List.getLast?_cons_cons] at last
    obtain ⟨u, final⟩ : ∃ u, (d :: more).getLast? = some u := by simp [List.getLast?_eq_some_getLast]
    have kept := last u final
    simp only [reduceCtorEq, iff_false]
    intro blank
    simp [blank u (List.mem_of_getLast? final)] at kept

theorem conditionOfText_eq_error_iff {text : String} {place : Nat} {e : QueryFault} :
    conditionOfText text place = .error e ↔ Text.trim text = "#" ∧ e = .missingTagName place := by
  have ends : Text.Trimmed Text.isBlank (Text.trim text).toList := by
    rw [Text.toList_trim]
    exact Text.trimmed_trimList _ _
  have same : Text.trim text = "#" ↔ (Text.trim text).toList = ['#'] := by
    rw [← String.toList_inj]
    rfl
  rw [same]
  unfold conditionOfText
  generalize (Text.trim text).toList = cs at ends
  cases cs with
  | nil => simp
  | cons c rest =>
    by_cases sign : c = '#'
    · subst sign
      have nameless := trim_tail_isEmpty_iff ends
      cases rest with
      | nil =>
        have gone : (Text.trim (String.ofList ([] : List Char))).isEmpty = true := nameless.2 rfl
        simp [gone, eq_comm]
      | cons d more =>
        have named : ¬(Text.trim (String.ofList (d :: more))).isEmpty = true := nameless.not.2 (by simp)
        simp only [List.drop_one, List.tail_cons, if_neg named]
        simp
    · have other : ¬((c :: rest).head? == some '#') = true := by simpa using sign
      simp only [if_neg other, List.cons.injEq, sign, false_and, iff_false]
      split
      · simp
      · split <;> simp

theorem stated_eq_error_iff {run : List Token} {e : QueryFault} :
    stated run = .error e ↔ Text.trim (joined run) = "#" ∧ e = .missingTagName (column run) :=
  conditionOfText_eq_error_iff

theorem segmentOf_eq_error_iff {ts : List Token} {e : QueryFault} :
    segmentOf ts = .error e ↔ ((cut .not ts).flatMap runs).mapM stated = .error e := by
  have whole : (cut .not ts).flatMap runs = runs ((cut .not ts).headD []) ++ (cut .not ts).tail.flatMap runs := by
    cases cut .not ts with
    | nil => rfl
    | cons part others => rfl
  rw [whole, Outcome.mapM_append_eq_error, segmentOf, Outcome.bind_eq_error]
  simp

theorem segmentsOf_eq_error_iff {ts : List Token} {e : QueryFault} :
    segmentsOf ts = .error e ↔ (allRuns ts).mapM stated = .error e := by
  rw [allRuns, ← Outcome.mapM_flatMap_eq_error (f := segmentOf) fun s _ e => segmentOf_eq_error_iff, segmentsOf]
  simp

/-- The fault of a query is that of its first run that is a number sign without a name. -/
theorem segmentsOf_fault {ts : List Token} {e : QueryFault} :
    segmentsOf ts = .error e ↔
      ∃ run, (allRuns ts).find? (fun run => Text.trim (joined run) == "#") = some run ∧
        e = .missingTagName (column run) := by
  have faulty : (fun run => !(stated run).isOk) = fun run => Text.trim (joined run) == "#" := by
    funext run
    have fault : stated run = .error (.missingTagName (column run)) ↔ Text.trim (joined run) = "#" := by
      simp [stated_eq_error_iff]
    cases read : stated run with
    | ok c => simpa [Except.isOk, Except.toBool, read] using fault
    | error e => simpa [Except.isOk, Except.toBool] using (stated_eq_error_iff.1 read).1
  rw [segmentsOf_eq_error_iff, Outcome.mapM_eq_error_iff, faulty]
  refine exists_congr fun run => and_congr_right fun first => ?_
  have nameless := List.find?_some first
  rw [stated_eq_error_iff]
  exact and_iff_right (by simpa using nameless)

end faults

section words

theorem flatten_cut (k : TokenKind) (ts : List Token) : (cut k ts).flatten = ts.filter (·.kind ≠ k) := by
  induction ts using cut_induction k with
  | whole ts free =>
    rw [cut_free free, List.filter_eq_self.2 (by simpa using free)]
    simp
  | first front t rest free separates ih =>
    have all : front.filter (·.kind ≠ k) = front := List.filter_eq_self.2 (by simpa using free)
    rw [cut_at free separates, List.flatten_cons, ih, List.filter_append, all]
    simp [separates]

theorem flatten_runs (part : List Token) : (runs part).flatten = part.filter (·.kind ≠ .and) := by
  rw [runs, List.flatten_filter_not_isEmpty, flatten_cut]

theorem flatten_flatMap (f : List Token → List (List Token)) (p : Token → Bool)
    (each : ∀ ts, (f ts).flatten = ts.filter p)
    (k : TokenKind) (ts : List Token) :
    ((cut k ts).flatMap f).flatten = (ts.filter (·.kind ≠ k)).filter p := by
  rw [← flatten_cut, List.filter_flatten, List.flatMap_def, List.flatten_flatten, List.map_map]
  exact congrArg List.flatten (List.map_congr_left fun s _ => each s)

theorem flatten_allRuns {ts : List Token} (going : ∀ u ∈ ts, u.kind ≠ .finish) :
    (allRuns ts).flatten = ts.filter Token.isWord := by
  have parts := flatten_flatMap runs _ flatten_runs .not
  rw [allRuns, flatten_flatMap _ _ (fun s => (parts s).trans (List.filter_filter ..)) .or, List.filter_filter]
  refine List.filter_congr fun u mem => ?_
  have := going u mem
  cases kind : u.kind <;> simp_all [Token.isWord]

end words

section text

variable {text : String} {ts : List Token} {q : Query}

theorem read_eq (lexed : tokenize text = .ok ts) : read text = do return ⟨text, ← segmentsOf ts.dropLast⟩ := by
  obtain ⟨body, last, rfl, ends, going⟩ := tokensFrom_ended lexed
  rw [read, lexed, List.dropLast_concat, ← readSegments_body ends going]
  rfl

theorem read_words {run : List Token} {last : Token} {k : Condition} (lexed : tokenize text = .ok (run ++ [last]))
    (nonempty : run ≠ []) (words : ∀ u ∈ run, u.kind = .word) (states : stated run = .ok k) :
    read text = .ok ⟨text, [⟨[k], []⟩]⟩ := by
  have free : ∀ other, other ≠ .word → ∀ u ∈ run, u.kind ≠ other := by
    intro other differs u mem same
    exact differs (same.symm.trans (words u mem))
  rw [read_eq lexed, List.dropLast_concat, segmentsOf_free (free _ (by simp)), segmentOf, cut_free (free _ (by simp)),
    List.headD_cons, runs_free (free _ (by simp))]
  simp [nonempty, states, kept, pure, Except.pure, bind, Except.bind]

theorem exists_stated (h : read text = .ok q) {g : Segment} (segment : g ∈ q.segments) {k : Condition}
    (mem : k ∈ g.required ++ g.excluded) : ∃ run, stated run = .ok k := by
  obtain ⟨ts, lexed, _⟩ := Outcome.bind_eq_ok.1 h
  rw [read_eq lexed] at h
  obtain ⟨gs, cutting, h⟩ := Outcome.bind_eq_ok.1 h
  cases h
  obtain ⟨all, each, kept⟩ := Outcome.bind_eq_ok.1 cutting
  cases kept
  obtain ⟨part, _, whole⟩ := Outcome.exists_of_mem_mapM each (List.mem_of_mem_filter segment)
  obtain ⟨required, reads, whole⟩ := Outcome.bind_eq_ok.1 whole
  obtain ⟨excluded, reads', whole⟩ := Outcome.bind_eq_ok.1 whole
  cases whole
  rcases List.mem_append.1 mem with mem | mem
  · obtain ⟨run, _, states⟩ := Outcome.exists_of_mem_mapM reads mem
    exact ⟨run, states⟩
  · obtain ⟨run, _, states⟩ := Outcome.exists_of_mem_mapM reads' mem
    exact ⟨run, states⟩

/-- A query is what its tokens are cut into. It faults exactly when one of its runs of words is a
number sign without a name, at the first such run. No word is lost, and a segment stops at an `or` or
the end, whatever it is read from. -/
theorem read_exact (lexed : tokenize text = .ok ts) :
    (read text = do return ⟨text, ← segmentsOf ts.dropLast⟩) ∧
      (∀ e, read text = .error e ↔
        ∃ run, (allRuns ts.dropLast).find? (fun run => Text.trim (joined run) == "#") = some run ∧
          e = .missingTagName (column run)) ∧
      (allRuns ts.dropLast).flatten = ts.filter Token.isWord ∧
      ∀ us s t rest, readSegment us = .ok (s, t :: rest) → t.kind = .or ∨ t.kind = .finish := by
  refine ⟨read_eq lexed, ?_, ?_, ?_⟩
  · intro e
    rw [read_eq lexed, ← segmentsOf_fault]
    simp
  · obtain ⟨body, last, rfl, ends, going⟩ := tokensFrom_ended lexed
    have noWord : last.isWord = false := by simp [Token.isWord, ends]
    simp [flatten_allRuns going, noWord]
  · intro us s t rest read
    exact readSegment_stops read t rfl

def namelessTokens : List Token :=
  [⟨.word, "Log", 1, false⟩, ⟨.or, "or", 5, false⟩, ⟨.not, "not", 8, false⟩, ⟨.word, "#", 12, false⟩,
    ⟨.finish, "", 13, false⟩]

/-- A number sign without a name is a fault even where it would exclude something from nothing. -/
theorem read_exact_nameless :
    tokenize "Log or not #" = .ok namelessTokens ∧ read "Log or not #" = .error (.missingTagName 12) := by
  have lexed : tokenize "Log or not #" = .ok namelessTokens := by cbv
  obtain ⟨_, faults, _⟩ := read_exact lexed
  exact ⟨lexed, (faults _).2 ⟨[⟨.word, "#", 12, false⟩], by decide +kernel, rfl⟩⟩

end text

end VaultSchema.Query
