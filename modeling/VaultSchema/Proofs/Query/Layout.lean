import Mathlib
import VaultSchema.Proofs.Query.Union

/-! How tokens are written, and how the lexer goes over a text: it lays tokens over the text one
after the other, until nothing is left or a quote is not closed. -/

set_option autoImplicit false

namespace VaultSchema.Query

/-- How a text is written between quotes. The character behind a backslash belongs to the text, whatever
it is, and a quote belongs to it only there. -/
inductive Escapes : List Char → List Char → Prop where
  | nil : Escapes [] []
  | escaped (c : Char) {inner text : List Char} (rest : Escapes inner text) : Escapes ('\\' :: c :: inner) (c :: text)
  | plain {c : Char} {inner text : List Char} (quote : c ≠ '"') (slash : c ≠ '\\') (rest : Escapes inner text) :
    Escapes (c :: inner) (c :: text)

def InAnyCase (word : List Char) (letters : String) : Prop :=
  List.Forall₂ (fun c l => c = l ∨ c = l.toUpper) word letters.toList

structure Keyed (kind : TokenKind) (word : List Char) : Prop where
  and : kind = .and ↔ InAnyCase word "and"
  or : kind = .or ↔ InAnyCase word "or"
  not : kind = .not ↔ InAnyCase word "not"
  inside : kind ≠ .finish

def Solid (cs : List Char) : Prop := ∀ c ∈ cs, Text.isBlank c = false

/-- The place beside a token is free: a blank is there, or nothing. -/
def Free (c : Option Char) : Prop := ∀ b ∈ c, Text.isBlank b = true

namespace Token

inductive Written (t : Token) : List Char → Prop where
  | bare {first : Char} {word : List Char} (plain : first ≠ '"') (solid : Solid (first :: word))
    (value : t.value = String.ofList (first :: word)) (unquoted : t.quoted = false)
    (kind : Keyed t.kind (first :: word)) : Written t (first :: word)
  | quoted {inner text more : List Char} (escapes : Escapes inner text) (solid : Solid more)
    (value : t.value = String.ofList (text ++ more)) (quoted : t.quoted = true) (kind : t.kind = .word) :
    Written t ('"' :: inner ++ '"' :: more)

end Token

section reading

variable {cs text after inner more : List Char}

theorem readQuoted?_escapes (escapes : Escapes inner text) (after : List Char) :
    readQuoted? (inner ++ '"' :: after) = some (text, after) := by
  induction escapes with
  | nil => rfl
  | escaped c rest ih => simp [readQuoted?, ih]
  | @plain c inner text quote slash rest ih =>
    rw [List.cons_append, readQuoted?, ih]
    · rfl
    · exact quote
    · exact fun _ _ same => absurd same slash

theorem readQuoted?_eq_some_iff :
    readQuoted? cs = some (text, after) ↔ ∃ inner, Escapes inner text ∧ cs = inner ++ '"' :: after := by
  constructor
  · intro read
    fun_induction readQuoted? cs generalizing text with
    | case1 => cases read
    | case2 rest =>
      cases read
      exact ⟨[], .nil, rfl⟩
    | case3 c rest ih =>
      obtain ⟨⟨front, behind⟩, found, same⟩ := Option.map_eq_some_iff.1 read
      cases same
      obtain ⟨inner, escapes, rfl⟩ := ih found
      exact ⟨'\\' :: c :: inner, .escaped c escapes, rfl⟩
    | case4 c rest quote single ih =>
      obtain ⟨⟨front, behind⟩, found, same⟩ := Option.map_eq_some_iff.1 read
      cases same
      obtain ⟨inner, escapes, rfl⟩ := ih found
      refine ⟨c :: inner, .plain (fun same => quote same) ?_ escapes, rfl⟩
      -- A backslash here would have nothing behind it, but at least the closing quote is there.
      rintro rfl
      cases inner with
      | nil => exact single _ _ rfl rfl
      | cons d inner => exact single _ _ rfl rfl
  · rintro ⟨inner, escapes, rfl⟩
    exact readQuoted?_escapes escapes after

end reading

theorem toUpper_eq_iff {c l : Char} (small : l.isLower = true) : c.toUpper = l.toUpper ↔ c = l ∨ c = l.toUpper := by
  constructor
  · intro same
    by_cases capital : c.isUpper = true
    · rw [Char.toUpper_eq_of_not_isLower (Char.not_isLower_of_isUpper capital)] at same
      exact Or.inr same
    · have lower : c.toLower = l.toLower := by
        rw [← Char.toLower_toUpper_eq_toLower, same, Char.toLower_toUpper_eq_toLower]
      rw [Char.toLower_eq_of_not_isUpper capital,
        Char.toLower_eq_of_not_isUpper (Char.not_isUpper_of_isLower small)] at lower
      exact Or.inl lower
  · rintro (rfl | rfl)
    · rfl
    · exact Char.toUpper_toUpper_eq_toUpper l

theorem inAnyCase_iff (word : List Char) (letters capitals : String)
    (small : ∀ l ∈ letters.toList, l.isLower = true)
    (large : String.ofList (letters.toList.map Char.toUpper) = capitals) :
    InAnyCase word letters ↔ String.ofList (word.map Char.toUpper) = capitals := by
  rw [← large, String.ofList_inj, InAnyCase]
  clear large
  generalize letters.toList = ls at small
  induction ls generalizing word with
  | nil => cases word <;> simp
  | cons l ls ih =>
    cases word with
    | nil => simp
    | cons c word =>
      rw [List.forall₂_cons, List.map_cons, List.map_cons, List.cons.injEq, toUpper_eq_iff (small l (by simp)),
        ih word fun k mem => small k (by simp [mem])]

theorem keyed_kindOf (word : List Char) : Keyed (kindOf word) word := by
  have and := inAnyCase_iff word "and" "AND" (by simp) (by cbv)
  have or := inAnyCase_iff word "or" "OR" (by simp) (by cbv)
  have not := inAnyCase_iff word "not" "NOT" (by simp) (by cbv)
  unfold kindOf
  split
  · rename_i same
    refine ⟨?_, ?_, ?_, ?_⟩ <;> simp [and, or, not, same]
  · rename_i same
    refine ⟨?_, ?_, ?_, ?_⟩ <;> simp [and, or, not, same]
  · rename_i same
    refine ⟨?_, ?_, ?_, ?_⟩ <;> simp [and, or, not, same]
  · rename_i same same' same''
    refine ⟨?_, ?_, ?_, ?_⟩ <;> simp_all

theorem Keyed.unique {word : List Char} {k l : TokenKind} (h : Keyed k word) (g : Keyed l word) : k = l := by
  have and := h.and.trans g.and.symm
  have or := h.or.trans g.or.symm
  have not := h.not.trans g.not.symm
  have inside := h.inside
  have inside' := g.inside
  cases k <;> cases l <;> simp_all

section written

variable {cs own other after behind : List Char} {t u : Token}

theorem solid_append (solid : Solid own) (closes : Free after.head?) :
    (own ++ after).takeWhile isInWord = own ∧ (own ++ after).dropWhile isInWord = after := by
  have all : ∀ c ∈ own, isInWord c = true := fun c mem => by simp [isInWord, solid c mem]
  rw [List.takeWhile_append_of_pos all, List.dropWhile_append_of_pos all]
  cases after with
  | nil => simp
  | cons b rest =>
    have stops : isInWord b = false := by simp [isInWord, closes b rfl]
    simp [stops]

theorem solid_takeWhile (cs : List Char) : Solid (cs.takeWhile isInWord) := by
  intro c mem
  simpa [isInWord] using List.all_eq_true.1 List.all_takeWhile c mem

theorem free_dropWhile (cs : List Char) : Free (cs.dropWhile isInWord).head? := by
  intro b first
  simpa [isInWord] using Text.head?_dropWhile isInWord cs b first

theorem Token.Written.first (h : t.Written own) : ∃ c rest, own = c :: rest ∧ Text.isBlank c = false := by
  cases h with
  | bare plain solid => exact ⟨_, _, rfl, solid _ List.mem_cons_self⟩
  | quoted => exact ⟨'"', _, rfl, by decide⟩

theorem Token.Written.last (h : t.Written own) : ∀ c ∈ own.getLast?, Text.isBlank c = false := by
  cases h with
  | bare plain solid => exact fun c last => solid c (List.mem_of_getLast? last)
  | @quoted inner text more escapes solid =>
    intro c last
    rw [List.getLast?_append_of_ne_nil _ (by simp)] at last
    cases more with
    | nil =>
      obtain rfl : '"' = c := by simpa using last
      decide
    | cons d more =>
      rw [List.getLast?_cons_cons] at last
      exact solid c (List.mem_of_getLast? last)

/-- Where a token is written, no other is, and it does not end anywhere else. -/
theorem Token.Written.unique (h : t.Written own) (g : u.Written other) (same : own ++ after = other ++ behind)
    (closes : Free after.head?) (closes' : Free behind.head?) :
    own = other ∧ t.kind = u.kind ∧ t.value = u.value ∧ t.quoted = u.quoted := by
  cases h with
  | @bare c word plain solid value unquoted kind =>
    cases g with
    | @bare d word' _ solid' value' unquoted' kind' =>
      have whole : c :: word = d :: word' := by
        rw [← (solid_append solid closes).1, ← (solid_append solid' closes').1, same]
      rw [whole] at value kind
      exact ⟨whole, kind.unique kind', value.trans value'.symm, unquoted.trans unquoted'.symm⟩
    | quoted => exact (plain (List.cons.inj same).1).elim
  | @quoted inner text more escapes solid value quoted kind =>
    cases g with
    | bare plain => exact (plain (List.cons.inj same).1.symm).elim
    | @quoted inner' text' more' escapes' solid' value' quoted' kind' =>
      have read : inner ++ '"' :: (more ++ after) = inner' ++ '"' :: (more' ++ behind) := by
        simpa using same
      have found := readQuoted?_escapes escapes (more ++ after)
      rw [read, readQuoted?_escapes escapes'] at found
      obtain ⟨rfl, rest⟩ : text' = text ∧ more' ++ behind = more ++ after := by simpa using found
      have ending : more = more' := by
        rw [← (solid_append solid closes).1, ← (solid_append solid' closes').1, rest]
      subst ending
      have between : inner = inner' := by
        rw [rest] at read
        exact List.append_cancel_right read
      subst between
      exact ⟨rfl, kind.trans kind'.symm, value.trans value'.symm, quoted.trans quoted'.symm⟩

end written

/-- Tokens laid over a text that starts at some place, with blanks before, between and behind them. -/
inductive Laid : Nat → List Char → List Token → Prop where
  | blanks {start : Nat} {gap : List Char} (blank : ∀ c ∈ gap, Text.isBlank c = true) : Laid start gap []
  | token {start : Nat} {gap own rest : List Char} {t : Token} {front : List Token}
      (blank : ∀ c ∈ gap, Text.isBlank c = true) (written : t.Written own)
      (column : t.column = start + gap.length + 1) (closes : Free rest.head?)
      (later : Laid (start + gap.length + own.length) rest front) : Laid start (gap ++ own ++ rest) (t :: front)

section lexing

variable {start size : Nat} {cs text after more quoted : List Char} {c : Char} {ts front : List Token}

theorem cut_blanks (begins : cs.dropWhile Text.isBlank = c :: more) :
    ∃ gap, (∀ b ∈ gap, Text.isBlank b = true) ∧ Text.isBlank c = false ∧ cs = gap ++ c :: more := by
  refine ⟨cs.takeWhile Text.isBlank, fun b mem => List.all_eq_true.1 List.all_takeWhile b mem, ?_, ?_⟩
  · exact Text.head?_dropWhile Text.isBlank cs c (by rw [begins]; rfl)
  · rw [← begins, List.takeWhile_append_dropWhile]

inductive Next (start size : Nat) : List Char → Except QueryFault (List Token) → Prop where
  | finished {cs : List Char} (blank : ∀ b ∈ cs, Text.isBlank b = true) :
    Next start size cs (.ok [⟨.finish, "", size + 1, false⟩])
  | broken {gap quoted : List Char} (blank : ∀ b ∈ gap, Text.isBlank b = true)
      (unclosed : readQuoted? quoted = none) :
    Next start size (gap ++ '"' :: quoted) (.error (.unterminatedQuote (start + gap.length + 1)))
  | token {gap own rest : List Char} {t : Token} (blank : ∀ b ∈ gap, Text.isBlank b = true)
      (written : t.Written own) (column : t.column = start + gap.length + 1) (closes : Free rest.head?) :
    Next start size (gap ++ own ++ rest) (do
      let others ← tokensFrom size rest
      return t :: others)

theorem next (place : start + cs.length = size) : Next start size cs (tokensFrom size cs) := by
  cases begins : cs.dropWhile Text.isBlank with
  | nil =>
    rw [tokensFrom_blank begins]
    exact .finished (List.dropWhile_eq_nil_iff.1 begins)
  | cons c more =>
    obtain ⟨gap, blank, solid, rfl⟩ := cut_blanks begins
    have column : size - more.length = start + gap.length + 1 := by
      simp only [List.length_append, List.length_cons] at place
      omega
    by_cases quote : c = '"'
    · subst quote
      rw [tokensFrom_quoted begins]
      cases read : readQuoted? more with
      | none =>
        rw [column]
        exact .broken blank read
      | some found =>
        obtain ⟨text, after⟩ := found
        obtain ⟨inner, escapes, rfl⟩ := readQuoted?_eq_some_iff.1 read
        have whole : gap ++ '"' :: (inner ++ '"' :: after) =
            gap ++ ('"' :: inner ++ '"' :: after.takeWhile isInWord) ++ after.dropWhile isInWord := by
          simp [List.takeWhile_append_dropWhile]
        rw [whole, column]
        exact .token blank (.quoted escapes (solid_takeWhile after) rfl rfl rfl) rfl (free_dropWhile after)
    · rw [tokensFrom_word begins quote]
      have whole : gap ++ c :: more = gap ++ (c :: more.takeWhile isInWord) ++ more.dropWhile isInWord := by
        simp [List.takeWhile_append_dropWhile]
      have all : Solid (c :: more.takeWhile isInWord) := fun b mem =>
        (List.mem_cons.1 mem).elim (fun same => same ▸ solid) (solid_takeWhile more b)
      rw [whole, column]
      exact .token blank (.bare quote all rfl rfl (keyed_kindOf _)) rfl (free_dropWhile more)

/-- The tokens of a text are laid over it, or over what comes before a quote that is not closed. -/
theorem laid_tokensFrom (place : start + cs.length = size) :
    (∃ front, tokensFrom size cs = .ok (front ++ [⟨.finish, "", size + 1, false⟩]) ∧ Laid start cs front) ∨
    ∃ before front quoted, tokensFrom size cs = .error (.unterminatedQuote (start + before.length + 1)) ∧
      cs = before ++ '"' :: quoted ∧ Laid start before front ∧ Free before.getLast? ∧ readQuoted? quoted = none := by
  induction n : cs.length using Nat.strongRecOn generalizing start cs with
  | ind n ih =>
    have step := next place
    generalize result : tokensFrom size cs = found at step
    cases step with
    | finished blank => exact Or.inl ⟨[], rfl, .blanks blank⟩
    | @broken gap quoted blank unclosed =>
      have ends : Free gap.getLast? := fun b last => blank b (List.mem_of_getLast? last)
      exact Or.inr ⟨gap, [], quoted, rfl, rfl, .blanks blank, ends, unclosed⟩
    | @token gap own rest t blank written column closes =>
      obtain ⟨first, others, rfl, solid⟩ := written.first
      simp only [List.length_append, List.length_cons] at n place
      have rests := @ih rest.length (by omega) (start + gap.length + (first :: others).length) rest
        (by simp only [List.length_cons]; omega) rfl
      rcases rests with ⟨front, lexed, laid⟩ | ⟨before, front, quoted, lexed, rfl, laid, last, unclosed⟩
      · exact Or.inl ⟨t :: front, by rw [lexed]; rfl, .token blank written column closes laid⟩
      · -- The quote begins a token, so there is a blank before it.
        cases before with
        | nil => exact absurd (closes '"' rfl) (by decide)
        | cons b before =>
          refine Or.inr ⟨gap ++ (first :: others) ++ b :: before, t :: front, quoted, ?_, by simp, ?_, ?_, unclosed⟩
          · rw [lexed]
            simp only [List.length_append, List.length_cons, bind, Except.bind, Nat.add_assoc]
          · exact .token blank written column closes laid
          · rwa [List.getLast?_append_of_ne_nil _ (by simp)]

end lexing

end VaultSchema.Query
