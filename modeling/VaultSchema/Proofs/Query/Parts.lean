import VaultSchema.Proofs.Query.Layout
import VaultSchema.Proofs.Text.Order

/-! Where tokens stand in a text. Blanks apart, every character belongs to just one token, which
stands at its column with blanks around it. A text has at most one such list of tokens. -/

set_option autoImplicit false

namespace VaultSchema.Query

namespace Token

/-- A token stands between two parts of a text, at its column, with blanks around it. -/
structure Stands (t : Token) (before own after : List Char) : Prop where
  column : t.column = before.length + 1
  opens : Free before.getLast?
  written : t.Written own
  closes : Free after.head?

def Covers (text : List Char) (t : Token) (place : Nat) : Prop :=
  ∃ before own after, text = before ++ own ++ after ∧ t.Stands before own after ∧
    before.length ≤ place ∧ place < before.length + own.length

end Token

def finishOf (text : List Char) : Token := ⟨.finish, "", text.length + 1, false⟩

/-- The tokens that a text consists of. -/
structure Parts (text : List Char) (front : List Token) : Prop where
  columns : (front ++ [finishOf text]).Pairwise (·.column < ·.column)
  stands : ∀ t ∈ front, ∃ before own after, text = before ++ own ++ after ∧ t.Stands before own after
  covered : ∀ place c, text[place]? = some c → Text.isBlank c = false → ∃! t, t ∈ front ∧ t.Covers text place

/-- After whole tokens and a blank, or at once, comes a quote that is never closed. -/
def BreaksOff (text : List Char) (column : Nat) : Prop :=
  ∃ before front quoted, text = before ++ '"' :: quoted ∧ Parts before front ∧ Free before.getLast? ∧
    (∀ inner written after, Escapes inner written → quoted ≠ inner ++ '"' :: after) ∧ column = before.length + 1

section laid

variable {start : Nat} {text done cs before own after : List Char} {t : Token} {front : List Token}

theorem Laid.columns (h : Laid start cs front) :
    (∀ t ∈ front, start < t.column ∧ t.column < start + cs.length + 1) ∧ front.Pairwise (·.column < ·.column) := by
  induction h with
  | blanks => exact ⟨by simp, .nil⟩
  | @token start gap own rest t front blank written column closes later ih =>
    obtain ⟨bounds, pairs⟩ := ih
    obtain ⟨first, others, rfl, _⟩ := written.first
    simp only [List.length_append, List.length_cons] at bounds ⊢
    refine ⟨fun u mem => ?_, .cons (fun u mem => ?_) pairs⟩
    · rcases List.mem_cons.1 mem with rfl | mem
      · omega
      · have := bounds u mem
        omega
    · have := bounds u mem
      omega

theorem stands_first {gap rest : List Char} (joint : Free done.getLast? ∨ Free (gap ++ own ++ rest).head?)
    (blank : ∀ c ∈ gap, Text.isBlank c = true) (written : t.Written own)
    (column : t.column = done.length + gap.length + 1) (closes : Free rest.head?) :
    t.Stands (done ++ gap) own rest := by
  refine ⟨by rw [column, List.length_append], ?_, written, closes⟩
  cases gap with
  | nil =>
    obtain ⟨first, others, rfl, solid⟩ := written.first
    rw [List.append_nil]
    refine joint.resolve_right fun opens => ?_
    rw [opens first rfl] at solid
    cases solid
  | cons b gap =>
    rw [List.getLast?_append_of_ne_nil _ (by simp)]
    exact fun c last => blank c (List.mem_of_getLast? last)

theorem Laid.stands (h : Laid start cs front) (done : List Char) (place : done.length = start)
    (whole : text = done ++ cs) (joint : Free done.getLast? ∨ Free cs.head?) :
    ∀ t ∈ front, ∃ before own after, text = before ++ own ++ after ∧ t.Stands before own after := by
  induction h generalizing done with
  | blanks => simp
  | @token start gap own rest t front blank written column closes later ih =>
    subst place
    intro u mem
    rcases List.mem_cons.1 mem with rfl | mem
    · exact ⟨done ++ gap, own, rest, by simp [whole], stands_first joint blank written column closes⟩
    · exact ih (done ++ gap ++ own) (by simp [Nat.add_assoc]) (by simp [whole]) (Or.inr closes) u mem

theorem covers_iff (whole : text = before ++ own ++ after) (stands : t.Stands before own after) {place : Nat} :
    t.Covers text place ↔ before.length ≤ place ∧ place < before.length + own.length := by
  constructor
  · rintro ⟨before', own', after', whole', stands', inside⟩
    have long : before'.length = before.length := by
      have := stands'.column
      have := stands.column
      omega
    obtain ⟨rfl, same⟩ : before' = before ∧ own' ++ after' = own ++ after :=
      List.append_inj (by rw [← List.append_assoc, ← List.append_assoc, ← whole', ← whole]) long
    obtain ⟨rfl, _⟩ := stands'.written.unique stands.written same stands'.closes stands.closes
    exact inside
  · rintro inside
    exact ⟨before, own, after, whole, stands, inside⟩

theorem Token.Covers.column_le {place : Nat} (h : t.Covers text place) : t.column ≤ place + 1 := by
  obtain ⟨before, own, after, _, stands, from', _⟩ := h
  have := stands.column
  omega

theorem Laid.covered (h : Laid start cs front) (done : List Char) (place : done.length = start)
    (whole : text = done ++ cs) (joint : Free done.getLast? ∨ Free cs.head?) {i : Nat} {c : Char} (behind : start ≤ i)
    (here : text[i]? = some c) (solid : Text.isBlank c = false) : ∃! t, t ∈ front ∧ t.Covers text i := by
  induction h generalizing done with
  | @blanks start gap blank =>
    rw [whole, List.getElem?_append_right (by omega)] at here
    rw [blank c (List.mem_of_getElem? here)] at solid
    cases solid
  | @token start gap own rest t front blank written column closes later ih =>
    subst place
    have first := stands_first joint blank written column closes
    have whole : text = done ++ gap ++ own ++ rest := by simp [whole]
    have covers : t.Covers text i ↔ _ := covers_iff whole first
    rw [List.length_append] at covers
    by_cases earlier : i < done.length + gap.length + own.length
    · -- What is not blank here is the first token, and the others come later.
      have inside : done.length + gap.length ≤ i := by
        by_contra outside
        rw [whole, List.getElem?_append_left (by simp; omega), List.getElem?_append_left (by simp; omega),
          List.getElem?_append_right behind] at here
        rw [blank c (List.mem_of_getElem? here)] at solid
        cases solid
      refine ⟨t, ⟨List.mem_cons_self, covers.2 ⟨inside, earlier⟩⟩, ?_⟩
      rintro u ⟨mem, also⟩
      rcases List.mem_cons.1 mem with rfl | mem
      · rfl
      · have := later.columns.1 u mem
        have := also.column_le
        omega
    · obtain ⟨u, ⟨mem, here⟩, only⟩ :=
        ih (done ++ gap ++ own) (by simp [Nat.add_assoc]) whole (Or.inr closes) (by omega)
      refine ⟨u, ⟨List.mem_cons_of_mem t mem, here⟩, ?_⟩
      rintro v ⟨mem, also⟩
      rcases List.mem_cons.1 mem with rfl | mem
      · exact absurd (covers.1 also).2 earlier
      · exact only v ⟨mem, also⟩

theorem Laid.parts (h : Laid 0 text front) : Parts text front where
  columns := by
    obtain ⟨bounds, pairs⟩ := h.columns
    rw [List.pairwise_append]
    refine ⟨pairs, List.pairwise_singleton _ _, fun t mem u last => ?_⟩
    obtain rfl := List.mem_singleton.1 last
    have := bounds t mem
    simp only [finishOf]
    omega
  stands := h.stands [] rfl rfl (Or.inl fun _ none => nomatch none)
  covered := fun _ _ here solid =>
    h.covered [] rfl rfl (Or.inl fun _ none => nomatch none) (Nat.zero_le _) here solid

end laid

section unique

variable {text before own after quoted : List Char} {t u : Token} {front other : List Token} {limit : Nat}

/-- As far as some place, the tokens that a text consists of. -/
structure PartsTill (limit : Nat) (text : List Char) (front : List Token) : Prop where
  stands : ∀ t ∈ front, ∃ before own after, text = before ++ own ++ after ∧ t.Stands before own after
  covered : ∀ place < limit, ∀ c, text[place]? = some c → Text.isBlank c = false →
    ∃! t, t ∈ front ∧ t.Covers text place

theorem Parts.till (h : Parts text front) (limit : Nat) : PartsTill limit text front :=
  ⟨h.stands, fun place _ => h.covered place⟩

theorem Token.Stands.first (stands : t.Stands before own after) (whole : text = before ++ own ++ after) :
    t.Covers text before.length ∧ ∃ c, text[before.length]? = some c ∧ Text.isBlank c = false := by
  obtain ⟨c, rest, same, solid⟩ := stands.written.first
  refine ⟨(covers_iff whole stands).2 ⟨Nat.le_refl _, by simp [same]⟩, c, ?_, solid⟩
  rw [whole, same, List.append_assoc, List.getElem?_append_right (Nat.le_refl _), Nat.sub_self]
  rfl

theorem Token.Stands.unique {before' own' after' : List Char} (stands : t.Stands before own after)
    (stands' : u.Stands before' own' after') (same : before ++ own ++ after = before' ++ own' ++ after')
    (column : t.column = u.column) : t = u := by
  have long : before.length = before'.length := by
    have := stands.column
    have := stands'.column
    omega
  obtain ⟨rfl, rest⟩ := List.append_inj (by simpa using same) long
  obtain ⟨_, kind, value, quoted⟩ := stands.written.unique stands'.written rest stands.closes stands'.closes
  obtain ⟨_, _, _, _⟩ := t
  simp_all

theorem PartsTill.mem_of_mem (h : PartsTill limit text front) (g : PartsTill limit text other) (mem : t ∈ front)
    (early : t.column ≤ limit) (earlier : ∀ u ∈ other, u.column < t.column → u ∈ front) : t ∈ other := by
  obtain ⟨before, own, after, whole, stands⟩ := h.stands t mem
  obtain ⟨here, c, first, solid⟩ := stands.first whole
  have column := stands.column
  obtain ⟨u, ⟨inside, also⟩, _⟩ := g.covered before.length (by omega) c first solid
  have := also.column_le
  rcases Nat.lt_or_ge u.column t.column with less | same
  · obtain ⟨_, _, only⟩ := h.covered before.length (by omega) c first solid
    have : t = u := (only t ⟨mem, here⟩).trans (only u ⟨earlier u inside less, also⟩).symm
    rw [this] at less
    omega
  · obtain ⟨before', own', after', whole', stands'⟩ := g.stands u inside
    rw [stands.unique stands' (whole.symm.trans whole') (by omega)]
    exact inside

theorem PartsTill.mem_iff (h : PartsTill limit text front) (g : PartsTill limit text other)
    (early : t.column ≤ limit) : t ∈ front ↔ t ∈ other := by
  induction n : t.column using Nat.strongRecOn generalizing t with
  | ind n ih =>
    have same : ∀ u, u.column < t.column → (u ∈ front ↔ u ∈ other) := fun u less =>
      ih u.column (by omega) (by omega) rfl
    exact ⟨fun mem => h.mem_of_mem g mem early fun u inside less => (same u less).2 inside,
      fun mem => g.mem_of_mem h mem early fun u inside less => (same u less).1 inside⟩

/-- A text consists of one list of tokens at most. -/
theorem Parts.unique (h : Parts text front) (g : Parts text other) : front = other := by
  have bounded : ∀ {l : List Token}, Parts text l → ∀ t ∈ l, t.column ≤ text.length := by
    intro l p t mem
    have := (List.pairwise_append.1 p.columns).2.2 t mem _ (List.mem_singleton_self _)
    simp only [finishOf] at this
    omega
  refine Text.eq_of_ascending (·.column) (List.pairwise_append.1 h.columns).1 (List.pairwise_append.1 g.columns).1 ?_
  intro t
  constructor
  · exact fun mem => ((h.till _).mem_iff (g.till _) (bounded h t mem)).1 mem
  · exact fun mem => ((h.till _).mem_iff (g.till _) (bounded g t mem)).2 mem

theorem Token.Stands.extend (stands : t.Stands before own after) (ends : Free (before ++ own ++ after).getLast?)
    (more : List Char) : t.Stands before own (after ++ more) := by
  refine { stands with closes := ?_ }
  cases after with
  | nil =>
    obtain ⟨c, last⟩ : ∃ c, own.getLast? = some c := by
      obtain ⟨c, rest, rfl, _⟩ := stands.written.first
      exact ⟨_, List.getLast?_eq_some_getLast (by simp)⟩
    have solid := stands.written.last c last
    rw [ends c (by simp [last])] at solid
    cases solid
  | cons b after => exact stands.closes

theorem Parts.extend (h : Parts text front) (ends : Free text.getLast?) (more : List Char) :
    PartsTill text.length (text ++ more) front := by
  have stays : ∀ t ∈ front, ∃ before own after, text = before ++ own ++ after ∧ t.Stands before own after ∧
      text ++ more = before ++ own ++ (after ++ more) ∧ t.Stands before own (after ++ more) := by
    intro t mem
    obtain ⟨before, own, after, whole, stands⟩ := h.stands t mem
    exact ⟨before, own, after, whole, stands, by simp [whole], stands.extend (whole ▸ ends) more⟩
  have same : ∀ t ∈ front, ∀ place, t.Covers (text ++ more) place ↔ t.Covers text place := by
    intro t mem place
    obtain ⟨before, own, after, whole, stands, whole', stands'⟩ := stays t mem
    rw [covers_iff whole stands, covers_iff whole' stands']
  refine ⟨fun t mem => ?_, fun place early c here solid => ?_⟩
  · obtain ⟨before, own, after, _, _, whole, stands⟩ := stays t mem
    exact ⟨before, own, after ++ more, whole, stands⟩
  · rw [List.getElem?_append_left early] at here
    obtain ⟨t, ⟨mem, covers⟩, only⟩ := h.covered place c here solid
    refine ⟨t, ⟨mem, (same t mem place).2 covers⟩, ?_⟩
    rintro u ⟨inside, also⟩
    exact only u ⟨inside, (same u inside place).1 also⟩

theorem BreaksOff.not_parts {column : Nat} (broken : BreaksOff text column) : ¬ Parts text front := by
  intro h
  obtain ⟨before, others, quoted, rfl, parts, ends, unclosed, _⟩ := broken
  have here : (before ++ '"' :: quoted)[before.length]? = some '"' := by simp
  obtain ⟨t, ⟨mem, covers⟩, _⟩ := h.covered before.length '"' here (by decide)
  rcases Nat.lt_or_ge before.length t.column with late | early
  · -- The quote begins the token, which is then closed.
    obtain ⟨before', own, after, whole, stands⟩ := h.stands t mem
    have := covers.column_le
    have := stands.column
    obtain ⟨rfl, rest⟩ : before' = before ∧ own ++ after = '"' :: quoted :=
      List.append_inj (by rw [← List.append_assoc, ← whole]) (by omega)
    cases stands.written with
    | bare plain => exact plain (List.cons.inj rest).1
    | @quoted inner text more escapes =>
      refine unclosed inner text (more ++ after) escapes ?_
      rw [← (List.cons.inj rest).2]
      simp
  · -- An earlier token would end before the quote.
    have extended := parts.extend ends ('"' :: quoted)
    have inside := ((h.till _).mem_iff extended early).1 mem
    obtain ⟨before', own, after, whole, stands⟩ := parts.stands t inside
    have whole' : before ++ '"' :: quoted = before' ++ own ++ (after ++ '"' :: quoted) := by simp [whole]
    have covered := (covers_iff whole' (stands.extend (whole ▸ ends) _)).1 covers
    have := congrArg List.length whole
    simp only [List.length_append] at this
    omega

/-- Only the first quote that is never closed is one behind whole tokens. -/
theorem BreaksOff.le {c d : Nat} (first : BreaksOff text c) (second : BreaksOff text d) : d ≤ c := by
  obtain ⟨before, front, quoted, rfl, parts, ends, unclosed, rfl⟩ := first
  obtain ⟨before', front', quoted', same, parts', ends', unclosed', rfl⟩ := second
  by_contra later
  obtain ⟨mid, rfl⟩ : ∃ mid, before' = before ++ '"' :: mid := by
    obtain ⟨rest, rfl, tail⟩ | ⟨rest, rfl, tail⟩ := List.append_eq_append_iff.1 same
    · cases rest with
      | nil => simp at later
      | cons b mid => exact ⟨mid, by rw [(List.cons.inj tail).1]⟩
    · simp only [List.length_append] at later
      omega
  refine BreaksOff.not_parts ⟨before, front, mid, rfl, parts, ends, ?_, rfl⟩ parts'
  rintro inner written after escapes rfl
  refine unclosed inner written (after ++ '"' :: quoted') escapes ?_
  simpa using same

end unique

theorem tokenize_cases (text : String) :
    (∃ front, tokenize text = .ok (front ++ [finishOf text.toList]) ∧ Parts text.toList front) ∨
    ∃ column, tokenize text = .error (.unterminatedQuote column) ∧ BreaksOff text.toList column := by
  rcases @laid_tokensFrom 0 text.length text.toList (by rw [Nat.zero_add, String.length_toList]) with
    ⟨front, lexed, laid⟩ | ⟨before, front, quoted, lexed, whole, laid, ends, unclosed⟩
  · refine Or.inl ⟨front, ?_, laid.parts⟩
    rw [tokenize, lexed, finishOf, String.length_toList]
  · refine Or.inr ⟨before.length + 1, ?_, before, front, quoted, whole, laid.parts, ends, ?_, rfl⟩
    · rw [tokenize, lexed, Nat.zero_add]
    · rintro inner written after escapes rfl
      rw [readQuoted?_escapes escapes] at unclosed
      cases unclosed

/-- The tokens of a text are those that it consists of, with an end one column behind its last character.
A text without such tokens has a first quote that begins a token and is never closed, and the lexer blames
just that one. -/
theorem tokenize_parts (text : String) :
    (∀ ts, tokenize text = .ok ts ↔ ∃ front, ts = front ++ [finishOf text.toList] ∧ Parts text.toList front) ∧
    ∀ f, tokenize text = .error f ↔ ∃ column, f = .unterminatedQuote column ∧ BreaksOff text.toList column := by
  rcases tokenize_cases text with ⟨front, lexed, parts⟩ | ⟨column, lexed, broken⟩
  · rw [lexed]
    refine ⟨fun ts => ⟨?_, ?_⟩, fun f => ⟨nofun, ?_⟩⟩
    · rintro ⟨⟩
      exact ⟨front, rfl, parts⟩
    · rintro ⟨other, rfl, parts'⟩
      rw [parts.unique parts']
    · rintro ⟨column, _, broken⟩
      exact (broken.not_parts parts).elim
  · rw [lexed]
    refine ⟨fun ts => ⟨nofun, ?_⟩, fun f => ⟨?_, ?_⟩⟩
    · rintro ⟨other, _, parts⟩
      exact (broken.not_parts parts).elim
    · rintro ⟨⟩
      exact ⟨column, rfl, broken⟩
    · rintro ⟨other, rfl, broken'⟩
      rw [Nat.le_antisymm (broken'.le broken) (broken.le broken')]

/-- What begins with a quote is a word, with what follows the closing quote. In the second text there is none. -/
example : tokenize "a \"or\" \"x y\"/* OR b" = .ok [⟨.word, "a", 1, false⟩, ⟨.word, "or", 3, true⟩,
    ⟨.word, "x y/*", 8, true⟩, ⟨.or, "OR", 16, false⟩, ⟨.word, "b", 19, false⟩, ⟨.finish, "", 20, false⟩] ∧
    tokenize "a \"b" = .error (.unterminatedQuote 3) := by cbv

end VaultSchema.Query
