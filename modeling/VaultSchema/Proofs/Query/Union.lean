import Mathlib
import VaultSchema.Proofs.Query.Grammar

/-! Two queries with `or` between them. The tokens of a text do not depend on what follows it behind
a blank, so both queries keep their tokens, and the segments of the whole are those of the one and
then those of the other. -/

set_option autoImplicit false

namespace VaultSchema.Query

def Token.shift (k : Nat) (t : Token) : Token := { t with column := t.column + k }

section lexing

variable {size : Nat} {cs rest more quoted text after : List Char} {c : Char} {ts : List Token}

theorem tokensFrom_blank (start : cs.dropWhile Text.isBlank = []) :
    tokensFrom size cs = .ok [⟨.finish, "", size + 1, false⟩] := by
  rw [tokensFrom]
  split
  · rfl
  · simp_all
  · simp_all

theorem tokensFrom_word (start : cs.dropWhile Text.isBlank = c :: more) (plain : c ≠ '"') :
    tokensFrom size cs = (do
      let word := c :: more.takeWhile isInWord
      let others ← tokensFrom size (more.dropWhile isInWord)
      return ⟨kindOf word, String.ofList word, size - more.length, false⟩ :: others) := by
  rw [tokensFrom]
  split
  · simp_all
  · rename_i mark
    exact absurd (List.cons.inj (start.symm.trans mark)).1 plain
  · rename_i first
    obtain ⟨rfl, rfl⟩ := List.cons.inj (start.symm.trans first)
    rfl

theorem tokensFrom_quoted (start : cs.dropWhile Text.isBlank = '"' :: quoted) :
    tokensFrom size cs =
      match readQuoted? quoted with
      | none => .error (.unterminatedQuote (size - quoted.length))
      | some (text, after) => do
        let word := text ++ after.takeWhile isInWord
        let others ← tokensFrom size (after.dropWhile isInWord)
        return ⟨.word, String.ofList word, size - quoted.length, true⟩ :: others := by
  rw [tokensFrom]
  split
  · simp_all
  · rename_i mark
    obtain rfl := (List.cons.inj (start.symm.trans mark)).2
    split <;> rename_i read <;> rw [read]
  · rename_i plain first
    exact absurd (List.cons.inj (start.symm.trans first)).1.symm plain

theorem tokensFrom_dropWhile (size : Nat) (cs : List Char) :
    tokensFrom size (cs.dropWhile Text.isBlank) = tokensFrom size cs := by
  have again : (cs.dropWhile Text.isBlank).dropWhile Text.isBlank = cs.dropWhile Text.isBlank :=
    List.dropWhile_idempotent _ _
  cases start : cs.dropWhile Text.isBlank with
  | nil => rw [tokensFrom_blank start, tokensFrom_blank rfl]
  | cons c more =>
    rw [start] at again
    by_cases quote : c = '"'
    · subst quote
      rw [tokensFrom_quoted start, tokensFrom_quoted again]
    · rw [tokensFrom_word start quote, tokensFrom_word again quote]

theorem readQuoted?_append (read : readQuoted? cs = some (text, after)) (rest : List Char) :
    readQuoted? (cs ++ rest) = some (text, after ++ rest) := by
  fun_induction readQuoted? cs generalizing text after with
  | case1 => cases read
  | case2 => simp_all [readQuoted?]
  | case3 c cs ih =>
    obtain ⟨⟨front, behind⟩, found, same⟩ := Option.map_eq_some_iff.1 read
    cases same
    simp [readQuoted?, ih found]
  | case4 c cs plain single ih =>
    obtain ⟨⟨front, behind⟩, found, same⟩ := Option.map_eq_some_iff.1 read
    cases same
    -- A slash at the very end could escape what follows, but behind it no quote is closed.
    have nonempty : cs ≠ [] := by
      rintro rfl
      simp [readQuoted?] at found
    obtain ⟨d, ds, rfl⟩ := List.exists_cons_of_ne_nil nonempty
    have slash : c ≠ '\\' := fun same => single d ds same rfl
    have further := ih found
    rw [List.cons_append] at further ⊢
    rw [List.cons_append, readQuoted?, further]
    · rfl
    · exact plain
    · exact fun _ _ same => absurd same slash

/-- What stands behind a blank does not change the word before it. -/
theorem word_append (cs : List Char) (blank : ∃ b ∈ rest.head?, Text.isBlank b = true) :
    (cs ++ rest).takeWhile isInWord = cs.takeWhile isInWord ∧
      (cs ++ rest).dropWhile isInWord = cs.dropWhile isInWord ++ rest := by
  obtain ⟨b, first, blank⟩ := blank
  obtain ⟨rest, rfl⟩ := List.head?_eq_some_iff.1 first
  have stops : isInWord b = false := by simp [isInWord, blank]
  induction cs with
  | nil => simp [stops]
  | cons c cs ih => by_cases inside : isInWord c = true <;> simp_all

theorem dropWhile_append_cons (start : cs.dropWhile Text.isBlank = c :: more) (rest : List Char) :
    (cs ++ rest).dropWhile Text.isBlank = c :: (more ++ rest) := by
  rw [List.dropWhile_append, start]
  rfl

theorem ne_nil_of_tokensFrom (lexed : tokensFrom size cs = .ok ts) : ts ≠ [] := by
  obtain ⟨body, last, rfl, _⟩ := tokensFrom_ended lexed
  simp

theorem tokensFrom_append (lexed : tokensFrom size cs = .ok ts) (blank : ∃ b ∈ rest.head?, Text.isBlank b = true) :
    tokensFrom (size + rest.length) (cs ++ rest) = (do
      let others ← tokensFrom (size + rest.length) rest
      return ts.dropLast ++ others) := by
  fun_induction tokensFrom size cs generalizing ts with
  | case1 cs start =>
    -- Only blanks are left, and those in front of a text make no token.
    cases lexed
    have same : (cs ++ rest).dropWhile Text.isBlank = rest.dropWhile Text.isBlank := by
      rw [List.dropWhile_append, start]
      rfl
    rw [← tokensFrom_dropWhile, same, tokensFrom_dropWhile]
    simp
  | case2 => cases lexed
  | case3 cs quoted start column text after read word =>
    rename_i ih
    obtain ⟨others, further, lexed⟩ := Outcome.bind_eq_ok.1 lexed
    cases lexed
    obtain ⟨taken, left⟩ := word_append after blank
    rw [tokensFrom_quoted (dropWhile_append_cons start rest), readQuoted?_append read]
    simp [taken, left, ih further, List.dropLast_cons_of_ne_nil (ne_nil_of_tokensFrom further), word, column,
      Nat.add_sub_add_right]
  | case4 cs c more plain start word =>
    rename_i ih
    obtain ⟨others, further, lexed⟩ := Outcome.bind_eq_ok.1 lexed
    cases lexed
    obtain ⟨taken, left⟩ := word_append more blank
    rw [tokensFrom_word (dropWhile_append_cons start rest) plain]
    simp [taken, left, ih further, List.dropLast_cons_of_ne_nil (ne_nil_of_tokensFrom further), word,
      Nat.add_sub_add_right]

theorem tokensFrom_shift (k : Nat) (inside : cs.length ≤ size) (lexed : tokensFrom size cs = .ok ts) :
    tokensFrom (size + k) cs = .ok (ts.map (Token.shift k)) := by
  fun_induction tokensFrom size cs generalizing ts with
  | case1 cs start =>
    cases lexed
    rw [tokensFrom_blank start, Nat.add_right_comm]
    rfl
  | case2 => cases lexed
  | case3 cs quoted start column text after read word =>
    rename_i ih
    obtain ⟨others, further, lexed⟩ := Outcome.bind_eq_ok.1 lexed
    cases lexed
    have front := length_dropWhile_le Text.isBlank cs
    rw [start, List.length_cons] at front
    have behind := readQuoted?_length read
    have rest := length_dropWhile_le isInWord after
    have place : size + k - quoted.length = column + k := by
      unfold column
      omega
    simp only [tokensFrom_quoted start, read, ih (by omega) further, place]
    rfl
  | case4 cs c more plain start word =>
    rename_i ih
    obtain ⟨others, further, lexed⟩ := Outcome.bind_eq_ok.1 lexed
    cases lexed
    have front := length_dropWhile_le Text.isBlank cs
    rw [start, List.length_cons] at front
    have rest := length_dropWhile_le isInWord more
    have place : size + k - more.length = size - more.length + k := by omega
    simp only [tokensFrom_word start plain, ih (by omega) further, place]
    rfl

end lexing

theorem tokenize_or {left right : String} {ts us : List Token} (first : tokenize left = .ok ts)
    (second : tokenize right = .ok us) :
    tokenize (left ++ " or " ++ right) =
      .ok (ts.dropLast ++ ⟨.or, "or", left.length + 2, false⟩ :: us.map (Token.shift (left.length + 4))) := by
  have whole : (left ++ " or " ++ right).toList = left.toList ++ ' ' :: 'o' :: 'r' :: ' ' :: right.toList := by
    simp
  have size : (left ++ " or " ++ right).length = right.length + (left.length + 4) := by
    rw [← String.length_toList, whole]
    simp only [List.length_append, List.length_cons, String.length_toList]
    omega
  have behind : tokensFrom (right.length + (left.length + 4)) (' ' :: right.toList) =
      .ok (us.map (Token.shift (left.length + 4))) := by
    rw [← tokensFrom_shift _ (Nat.le_of_eq String.length_toList) second, ← tokensFrom_dropWhile _ right.toList,
      ← tokensFrom_dropWhile]
    rfl
  have joint : tokensFrom (right.length + (left.length + 4)) (' ' :: 'o' :: 'r' :: ' ' :: right.toList) =
      .ok (⟨.or, "or", left.length + 2, false⟩ :: us.map (Token.shift (left.length + 4))) := by
    have column : right.length + (left.length + 4) - ('r' :: ' ' :: right.toList).length = left.length + 2 := by
      simp only [List.length_cons, String.length_toList]
      omega
    have start : (' ' :: 'o' :: 'r' :: ' ' :: right.toList).dropWhile Text.isBlank =
        'o' :: 'r' :: ' ' :: right.toList := rfl
    rw [tokensFrom_word start (by decide), column]
    have word : ('r' :: ' ' :: right.toList).takeWhile isInWord = ['r'] := rfl
    have rest : ('r' :: ' ' :: right.toList).dropWhile isInWord = ' ' :: right.toList := rfl
    rw [word, rest, behind]
    rfl
  have places : left.length + (' ' :: 'o' :: 'r' :: ' ' :: right.toList).length =
      right.length + (left.length + 4) := by
    simp only [List.length_cons, String.length_toList]
    omega
  have blank : ∃ b ∈ (' ' :: 'o' :: 'r' :: ' ' :: right.toList).head?, Text.isBlank b = true := ⟨' ', rfl, rfl⟩
  have both := tokensFrom_append first blank
  rw [places, joint] at both
  rw [tokenize, size, whole, both]
  rfl

section reading

variable {ts run : List Token} {k : Nat}

theorem conditionOfText_place {text : String} {place : Nat} {c : Condition}
    (states : conditionOfText text place = .ok c) (other : Nat) : conditionOfText text other = .ok c := by
  unfold conditionOfText at *
  grind

theorem stated_shift (run : List Token) (c : Condition) (states : stated run = .ok c) :
    stated (run.map (Token.shift k)) = .ok c := by
  have words : joined (run.map (Token.shift k)) = joined run := by
    rw [joined, List.map_map]
    rfl
  rw [stated, words]
  exact conditionOfText_place states _

theorem cut_shift (kind : TokenKind) (ts : List Token) :
    cut kind (ts.map (Token.shift k)) = (cut kind ts).map (List.map (Token.shift k)) := by
  induction ts using cut_induction kind with
  | whole ts free =>
    rw [cut_free free, cut_free (by simpa [Token.shift] using free)]
    rfl
  | first front t rest free separates ih =>
    have further : (t.shift k).kind = kind := separates
    rw [cut_at free separates, List.map_append, List.map_cons, cut_at (by simpa [Token.shift] using free) further, ih]
    rfl

theorem runs_shift (part : List Token) :
    runs (part.map (Token.shift k)) = (runs part).map (List.map (Token.shift k)) := by
  rw [runs, cut_shift, runs, List.filter_map]
  congr 2
  funext run
  simp

theorem segmentOf_shift (ts : List Token) (g : Segment) (read : segmentOf ts = .ok g) :
    segmentOf (ts.map (Token.shift k)) = .ok g := by
  obtain ⟨required, first, read⟩ := Outcome.bind_eq_ok.1 read
  obtain ⟨excluded, others, read⟩ := Outcome.bind_eq_ok.1 read
  cases read
  have front : runs ((cut .not (ts.map (Token.shift k))).headD []) =
      (runs ((cut .not ts).headD [])).map (List.map (Token.shift k)) := by
    rw [cut_shift, ← runs_shift]
    cases cut .not ts <;> rfl
  have behind : (cut .not (ts.map (Token.shift k))).tail.flatMap runs =
      ((cut .not ts).tail.flatMap runs).map (List.map (Token.shift k)) := by
    rw [cut_shift, ← List.map_tail, List.flatMap_map, List.map_flatMap]
    exact List.flatMap_congr fun part _ => runs_shift part
  rw [segmentOf, front, behind, Outcome.mapM_map_ok stated_shift first, Outcome.mapM_map_ok stated_shift others]
  rfl

theorem segmentsOf_shift {gs : List Segment} (read : segmentsOf ts = .ok gs) :
    segmentsOf (ts.map (Token.shift k)) = .ok gs := by
  obtain ⟨all, each, read⟩ := Outcome.bind_eq_ok.1 read
  rw [segmentsOf, cut_shift, Outcome.mapM_map_ok segmentOf_shift each]
  exact read

theorem segmentsOf_append {front rest : List Token} {t : Token} (separates : t.kind = .or) {fs gs : List Segment}
    (first : segmentsOf front = .ok fs) (second : segmentsOf rest = .ok gs) :
    segmentsOf (front ++ t :: rest) = .ok (fs ++ gs) := by
  obtain ⟨fs, each, kept⟩ := Outcome.bind_eq_ok.1 first
  cases kept
  obtain ⟨gs, others, kept⟩ := Outcome.bind_eq_ok.1 second
  cases kept
  have parts : cut .or (front ++ t :: rest) = cut .or front ++ cut .or rest :=
    List.splitOnP_append_cons front rest (by simpa using separates)
  rw [segmentsOf, parts, List.mapM_append, each, others, ← List.filter_append]
  rfl

end reading

/-- Two queries with `or` between them are one query, whose segments are those of the first and then those
of the second; it selects what either selects. -/
theorem or_unites {left right : String} {p q : Query} (first : read left = .ok p) (second : read right = .ok q) :
    ∃ both, read (left ++ " or " ++ right) = .ok both ∧ both.segments = p.segments ++ q.segments ∧
      ∀ d, both.holds d = true ↔ p.holds d = true ∨ q.holds d = true := by
  obtain ⟨ts, lexed, _⟩ := Outcome.bind_eq_ok.1 first
  obtain ⟨us, lexed', _⟩ := Outcome.bind_eq_ok.1 second
  rw [read_eq lexed] at first
  rw [read_eq lexed'] at second
  obtain ⟨fs, cutting, first⟩ := Outcome.bind_eq_ok.1 first
  cases first
  obtain ⟨gs, cutting', second⟩ := Outcome.bind_eq_ok.1 second
  cases second
  have body : (ts.dropLast ++ ⟨.or, "or", left.length + 2, false⟩ :: us.map (Token.shift (left.length + 4))).dropLast =
      ts.dropLast ++ ⟨.or, "or", left.length + 2, false⟩ :: us.dropLast.map (Token.shift (left.length + 4)) := by
    have some : us ≠ [] := ne_nil_of_tokensFrom lexed'
    rw [List.dropLast_append_cons, List.dropLast_cons_of_ne_nil (by simpa using some), List.map_dropLast]
  refine ⟨⟨left ++ " or " ++ right, fs ++ gs⟩, ?_, rfl, fun d => ?_⟩
  · rw [read_eq (tokenize_or lexed lexed'), body, segmentsOf_append rfl cutting (segmentsOf_shift cutting')]
    rfl
  · simp [holds]

/-- A quoted folder with more behind its quote and a `not` that excludes nothing, and a query that begins
with `or`. -/
theorem or_unites_dangling :
    ∃ p q both, read "\"Log and Ideas\"/* not" = .ok p ∧ read "or #book and not Old" = .ok q ∧
      read ("\"Log and Ideas\"/* not" ++ " or " ++ "or #book and not Old") = .ok both ∧
      both.segments = [⟨[.below "Log and Ideas"], []⟩, ⟨[.tag "book"], [.folder "Old"]⟩] ∧
      ∀ d, both.holds d = true ↔ p.holds d = true ∨ q.holds d = true := by
  have first : read "\"Log and Ideas\"/* not" = .ok ⟨"\"Log and Ideas\"/* not", [⟨[.below "Log and Ideas"], []⟩]⟩ := by
    have lexed : tokenize "\"Log and Ideas\"/* not" =
        .ok [⟨.word, "Log and Ideas/*", 1, true⟩, ⟨.not, "not", 19, false⟩, ⟨.finish, "", 22, false⟩] := by cbv
    rw [read_eq lexed]
    rfl
  have second : read "or #book and not Old" = .ok ⟨"or #book and not Old", [⟨[.tag "book"], [.folder "Old"]⟩]⟩ := by
    have lexed : tokenize "or #book and not Old" =
        .ok [⟨.or, "or", 1, false⟩, ⟨.word, "#book", 4, false⟩, ⟨.and, "and", 10, false⟩, ⟨.not, "not", 14, false⟩,
          ⟨.word, "Old", 18, false⟩, ⟨.finish, "", 21, false⟩] := by cbv
    rw [read_eq lexed]
    rfl
  obtain ⟨both, reads, segments, selects⟩ := or_unites first second
  exact ⟨_, _, both, first, second, reads, segments, selects⟩

end VaultSchema.Query
