import VaultSchema.Proofs.Note.Tags

/-! Code in the body of a note. A body is laid out in pieces: characters that stay, and fenced
blocks and code spans that are taken out. Tags are looked for in what stays, where neighbours may be
pieces that code stood between. -/

set_option autoImplicit false

namespace VaultSchema.Tags

variable {cs after fence : List Char} {lineStart : Bool}

def afterBlock? (lineStart : Bool) (cs : List Char) : Option (List Char) :=
  if lineStart then (fenceAt? cs).bind fun f => afterFence? f (cs.drop f.length) else none

def spanAt? : List Char → Option (List Char)
  | [] => none
  | c :: rest => if c == backtick then afterSpan? rest else none

theorem dropFenced_step (fuel : Nat) (lineStart : Bool) (c : Char) (rest : List Char) :
    dropFenced (fuel + 1) lineStart (c :: rest) = match afterBlock? lineStart (c :: rest) with
      | some after => dropFenced fuel false after
      | none => c :: dropFenced fuel (c == '\n') rest := rfl

theorem dropSpans_step (fuel : Nat) (c : Char) (rest : List Char) :
    dropSpans (fuel + 1) (c :: rest) = match spanAt? (c :: rest) with
      | some after => dropSpans fuel after
      | none => c :: dropSpans fuel rest := rfl

/-- Code as it is taken out: between two fences at beginnings of lines, or between two backticks of a line. -/
inductive IsCode : List Char → Prop
  | block {fence : List Char} (mem : fence ∈ fences) (inner : List Char) : IsCode (fence ++ inner ++ '\n' :: fence)
  | span {inner : List Char} (inside : ∀ c ∈ inner, c ≠ backtick ∧ c ≠ '\n') :
    IsCode (backtick :: inner ++ [backtick])

theorem eq_append_of_isPrefixOf {f : List Char} (h : f.isPrefixOf cs = true) : cs = f ++ cs.drop f.length := by
  obtain ⟨rest, rfl⟩ := List.isPrefixOf_iff_prefix.1 h
  rw [List.drop_left]

theorem of_fenceAt? (h : fenceAt? cs = some fence) : fence ∈ fences ∧ cs = fence ++ cs.drop fence.length := by
  unfold fenceAt? at h
  have starts := List.find?_some h
  exact ⟨List.mem_of_find?_eq_some h, eq_append_of_isPrefixOf starts⟩

theorem of_afterFence? (h : afterFence? fence cs = some after) : ∃ inner, cs = inner ++ '\n' :: fence ++ after := by
  fun_induction afterFence? fence cs with
  | case1 => cases h
  | case2 c rest here =>
    simp only [Bool.and_eq_true, beq_iff_eq] at here
    obtain ⟨rfl, starts⟩ := here
    refine ⟨[], ?_⟩
    rw [← Option.some.inj h, List.nil_append, List.cons_append, ← eq_append_of_isPrefixOf starts]
  | case3 c rest _ ih =>
    obtain ⟨inner, rfl⟩ := ih h
    exact ⟨c :: inner, rfl⟩

theorem of_afterSpan? (h : afterSpan? cs = some after) :
    ∃ inner, cs = inner ++ backtick :: after ∧ ∀ c ∈ inner, c ≠ backtick ∧ c ≠ '\n' := by
  fun_induction afterSpan? cs with
  | case1 => cases h
  | case2 c rest tick =>
    rw [beq_iff_eq] at tick
    exact ⟨[], by rw [tick, Option.some.inj h, List.nil_append], nofun⟩
  | case3 => cases h
  | case4 c rest noTick noBreak ih =>
    obtain ⟨inner, rfl, inside⟩ := ih h
    rw [beq_iff_eq] at noTick noBreak
    exact ⟨c :: inner, rfl, List.forall_mem_cons.2 ⟨⟨noTick, noBreak⟩, inside⟩⟩

theorem of_afterBlock? (h : afterBlock? lineStart cs = some after) : ∃ code, IsCode code ∧ cs = code ++ after := by
  unfold afterBlock? at h
  split at h
  · obtain ⟨f, found, closed⟩ := Option.bind_eq_some_iff.1 h
    obtain ⟨mem, starts⟩ := of_fenceAt? found
    obtain ⟨inner, rest⟩ := of_afterFence? closed
    rw [rest] at starts
    exact ⟨_, .block mem inner, by simp [starts]⟩
  · cases h

theorem of_spanAt? (h : spanAt? cs = some after) : ∃ code, IsCode code ∧ cs = code ++ after := by
  cases cs with
  | nil => cases h
  | cons c rest =>
    rw [spanAt?] at h
    split at h
    · next tick =>
      obtain ⟨inner, rfl, inside⟩ := of_afterSpan? h
      exact ⟨_, .span inside, by simp [beq_iff_eq.1 tick]⟩
    · cases h

theorem IsCode.ends {code : List Char} (h : IsCode code) :
    ∃ c d, code.head? = some c ∧ code.getLast? = some d ∧ isTagChar c = false ∧ mayPrecede (some d) = false := by
  cases h with
  | block mem inner =>
    simp only [fences, List.mem_cons, List.not_mem_nil, or_false] at mem
    rcases mem with rfl | rfl
    · exact ⟨'\x60', '\x60', rfl, by rw [List.getLast?_append]; rfl, by decide +kernel, by decide +kernel⟩
    · exact ⟨'~', '~', rfl, by rw [List.getLast?_append]; rfl, by decide +kernel, by decide +kernel⟩
  | span => exact ⟨backtick, backtick, rfl, List.getLast?_concat, by decide +kernel, by decide +kernel⟩

theorem IsCode.length_lt {code : List Char} (h : IsCode code) (whole : cs = code ++ after) :
    after.length < cs.length := by
  obtain ⟨c, -, head, -⟩ := h.ends
  cases code with
  | nil => cases head
  | cons =>
    rw [whole, List.length_append, List.length_cons]
    omega

theorem dropFenced_fuel {fuel fuel' : Nat} (enough : cs.length < fuel) (enough' : cs.length < fuel') :
    dropFenced fuel lineStart cs = dropFenced fuel' lineStart cs := by
  induction fuel generalizing fuel' lineStart cs with
  | zero => omega
  | succ fuel ih =>
    cases fuel' with
    | zero => omega
    | succ fuel' =>
      cases cs with
      | nil => rfl
      | cons c rest =>
        rw [List.length_cons] at enough enough'
        rw [dropFenced_step, dropFenced_step]
        cases block : afterBlock? lineStart (c :: rest) with
        | some after =>
          obtain ⟨code, isCode, whole⟩ := of_afterBlock? block
          have shorter := isCode.length_lt whole
          rw [List.length_cons] at shorter
          exact ih (by omega) (by omega)
        | none => exact congrArg (c :: ·) (ih (by omega) (by omega))

/-- Within a line no block begins, so a span there ends where it ends without the blocks. -/
theorem afterSpan?_dropFenced {fuel : Nat} (enough : cs.length < fuel) : afterSpan? (dropFenced fuel false cs) =
    (afterSpan? cs).map fun after => dropFenced (after.length + 1) false after := by
  induction cs generalizing fuel with
  | nil =>
    cases fuel with
    | zero => omega
    | succ => rfl
  | cons c rest ih =>
    cases fuel with
    | zero => omega
    | succ fuel =>
      rw [List.length_cons] at enough
      have kept : dropFenced (fuel + 1) false (c :: rest) = c :: dropFenced fuel (c == '\n') rest := rfl
      rw [kept, afterSpan?, afterSpan?]
      by_cases tick : c == backtick
      · have noBreak : (c == '\n') = false := by rw [beq_iff_eq.1 tick]; rfl
        rw [if_pos tick, if_pos tick, Option.map_some, noBreak, dropFenced_fuel (by omega) (Nat.lt_succ_self _)]
      · rw [if_neg tick, if_neg tick]
        by_cases lineBreak : c == '\n'
        · rw [if_pos lineBreak, if_pos lineBreak, Option.map_none]
        · rw [if_neg lineBreak, if_neg lineBreak, Bool.eq_false_iff.2 lineBreak]
          exact ih (by omega)

theorem spanAt?_dropFenced {fuel : Nat} {c : Char} (enough : cs.length < fuel) :
    spanAt? (c :: dropFenced fuel (c == '\n') cs) =
      (spanAt? (c :: cs)).map fun after => dropFenced (after.length + 1) false after := by
  rw [spanAt?, spanAt?]
  by_cases tick : c == backtick
  · have noBreak : (c == '\n') = false := by rw [beq_iff_eq.1 tick]; rfl
    rw [if_pos tick, if_pos tick, noBreak, afterSpan?_dropFenced enough]
  · rw [if_neg tick, if_neg tick, Option.map_none]

inductive Piece where
  | plain (c : Char)
  | code (text : List Char)
  deriving DecidableEq, Repr

namespace Piece

def source : Piece → List Char
  | plain c => [c]
  | code text => text

def kept : Piece → List Char
  | plain c => [c]
  | code _ => []

end Piece

/-- The pieces from here on. `lineStart` tells whether a line begins here. -/
def piecesFrom : Nat → Bool → List Char → List Piece
  | 0, _, cs => cs.map .plain
  | _ + 1, _, [] => []
  | fuel + 1, lineStart, c :: rest =>
    match (afterBlock? lineStart (c :: rest)).or (spanAt? (c :: rest)) with
    | some after => .code ((c :: rest).take ((c :: rest).length - after.length)) :: piecesFrom fuel false after
    | none => .plain c :: piecesFrom fuel (c == '\n') rest

def pieces (body : List Char) : List Piece := piecesFrom (body.length + 1) true body

/-- Pieces of a body, of which those that stay are what is left of it without code. -/
structure Layout (body : List Char) (ps : List Piece) : Prop where
  source : ps.flatMap Piece.source = body
  kept : ps.flatMap Piece.kept = withoutCode body
  code : ∀ {text : List Char}, .code text ∈ ps → IsCode text

theorem piecesFrom_step (fuel : Nat) (lineStart : Bool) (c : Char) (rest : List Char) :
    (∃ code after, (afterBlock? lineStart (c :: rest)).or (spanAt? (c :: rest)) = some after ∧ IsCode code ∧
        c :: rest = code ++ after ∧
        piecesFrom (fuel + 1) lineStart (c :: rest) = .code code :: piecesFrom fuel false after) ∨
      afterBlock? lineStart (c :: rest) = none ∧ spanAt? (c :: rest) = none ∧
        piecesFrom (fuel + 1) lineStart (c :: rest) = .plain c :: piecesFrom fuel (c == '\n') rest := by
  rw [piecesFrom]
  cases found : (afterBlock? lineStart (c :: rest)).or (spanAt? (c :: rest)) with
  | none =>
    obtain ⟨noBlock, noSpan⟩ := Option.or_eq_none_iff.1 found
    exact .inr ⟨noBlock, noSpan, rfl⟩
  | some after =>
    have : ∃ code, IsCode code ∧ c :: rest = code ++ after := by
      rcases Option.or_eq_some_iff.1 found with block | ⟨-, span⟩
      · exact of_afterBlock? block
      · exact of_spanAt? span
    obtain ⟨code, isCode, whole⟩ := this
    exact .inl ⟨code, after, rfl, isCode, whole, by simp [whole]⟩

theorem source_piecesFrom (fuel : Nat) (lineStart : Bool) (cs : List Char) :
    (piecesFrom fuel lineStart cs).flatMap Piece.source = cs := by
  induction fuel generalizing lineStart cs with
  | zero => simp [piecesFrom, List.flatMap_map, Piece.source]
  | succ fuel ih =>
    cases cs with
    | nil => rfl
    | cons c rest =>
      rcases piecesFrom_step fuel lineStart c rest with ⟨code, after, -, -, whole, step⟩ | ⟨-, -, step⟩
      · rw [step, List.flatMap_cons, ih, whole, Piece.source]
      · rw [step, List.flatMap_cons, ih, Piece.source, List.singleton_append]

theorem isCode_of_mem_piecesFrom {fuel : Nat} {text : List Char} (mem : .code text ∈ piecesFrom fuel lineStart cs) :
    IsCode text := by
  induction fuel generalizing lineStart cs with
  | zero => simp [piecesFrom] at mem
  | succ fuel ih =>
    cases cs with
    | nil => cases mem
    | cons c rest =>
      rcases piecesFrom_step fuel lineStart c rest with ⟨code, after, -, isCode, -, step⟩ | ⟨-, -, step⟩
      · rcases List.mem_cons.1 (step ▸ mem) with same | later
        · cases same
          exact isCode
        · exact ih later
      · rcases List.mem_cons.1 (step ▸ mem) with same | later
        · cases same
        · exact ih later

/-- Both passes together keep what the pieces keep. A block is gone after the first pass; a span is there still, and
as no block begins within its line, the second pass finds it whole. -/
theorem kept_piecesFrom {fuel fenced spans : Nat} (enough : cs.length < fuel) (enough' : cs.length < fenced)
    (enough'' : (dropFenced fenced lineStart cs).length < spans) :
    (piecesFrom fuel lineStart cs).flatMap Piece.kept = dropSpans spans (dropFenced fenced lineStart cs) := by
  induction fuel generalizing fenced spans lineStart cs with
  | zero => omega
  | succ fuel ih =>
    obtain ⟨fenced, rfl⟩ := Nat.exists_eq_succ_of_ne_zero (Nat.ne_zero_of_lt enough')
    obtain ⟨spans, rfl⟩ := Nat.exists_eq_succ_of_ne_zero (Nat.ne_zero_of_lt enough'')
    cases cs with
    | nil => rfl
    | cons c rest =>
      rw [dropFenced_step] at enough'' ⊢
      rw [List.length_cons] at enough enough'
      rcases piecesFrom_step fuel lineStart c rest with
        ⟨code, after, found, isCode, whole, step⟩ | ⟨noBlock, noSpan, step⟩
      · have shorter := isCode.length_lt whole
        rw [List.length_cons] at shorter
        rw [step, List.flatMap_cons, Piece.kept, List.nil_append]
        -- A block goes in the first pass, a span only in the second one, where it still stands as it did.
        rcases Option.or_eq_some_iff.1 found with block | ⟨noBlock, span⟩
        · rw [block] at enough'' ⊢
          exact ih (by omega) (by omega) enough''
        · rw [noBlock] at enough'' ⊢
          have span' := spanAt?_dropFenced (c := c) (Nat.succ_lt_succ_iff.1 enough')
          rw [span, Option.map_some] at span'
          obtain ⟨code', isCode', whole'⟩ := of_spanAt? span'
          have shorter' := isCode'.length_lt whole'
          rw [dropSpans_step, span']
          exact ih (by omega) (Nat.lt_succ_self _) (shorter'.trans_le (Nat.lt_succ_iff.1 enough''))
      · have noSpan' := spanAt?_dropFenced (c := c) (Nat.succ_lt_succ_iff.1 enough')
        rw [noSpan, Option.map_none] at noSpan'
        rw [noBlock] at enough'' ⊢
        rw [step, List.flatMap_cons, dropSpans_step, noSpan', Piece.kept, List.singleton_append]
        exact congrArg (c :: ·) (ih (by omega) (by omega) (Nat.succ_lt_succ_iff.1 enough''))

theorem layout_pieces (body : List Char) : Layout body (pieces body) where
  source := source_piecesFrom _ _ _
  kept := kept_piecesFrom (Nat.lt_succ_self _) (Nat.lt_succ_self _) (Nat.lt_succ_self _)
  code := isCode_of_mem_piecesFrom

theorem takeWhile_hash (l r : List Char) : ((l ++ '#' :: r).takeWhile isTagChar).length ≤ l.length := by
  have noTagChar : isTagChar '#' = false := by decide +kernel
  induction l with
  | nil => simp [noTagChar]
  | cons c l ih =>
    rw [List.cons_append, List.takeWhile_cons]
    split
    · exact Nat.succ_le_succ ih
    · exact Nat.zero_le _

/-- A run behind a number sign that may begin a tag, the first characters apart. -/
def Behind (run : List Char) (skip : Nat) (before : Option Char) (cs : List Char) : Prop :=
  ∃ l r, cs = l ++ '#' :: r ∧ skip ≤ l.length ∧ mayPrecede (l.getLast?.or before) = true ∧
    r.takeWhile isTagChar = run ∧ run ≠ []

theorem behind_cons {run : List Char} {skip : Nat} {before : Option Char} {c : Char} :
    Behind run skip before (c :: cs) ↔
      skip = 0 ∧ c = '#' ∧ mayPrecede before = true ∧ cs.takeWhile isTagChar = run ∧ run ≠ [] ∨
        Behind run (skip - 1) (some c) cs := by
  constructor
  · rintro ⟨l, r, split, far, may, run⟩
    cases l with
    | nil =>
      cases split
      exact .inl ⟨Nat.le_zero.1 far, rfl, may, run⟩
    | cons d l =>
      cases split
      rw [List.length_cons] at far
      exact .inr ⟨l, r, rfl, by omega, by simpa [List.getLast?_cons, Option.or_some] using may, run⟩
  · rintro (⟨rfl, rfl, may, run⟩ | ⟨l, r, rfl, far, may, run⟩)
    · exact ⟨[], cs, rfl, Nat.le_refl _, may, run⟩
    · refine ⟨c :: l, r, rfl, ?_, by simpa [List.getLast?_cons, Option.or_some] using may, run⟩
      rw [List.length_cons]
      omega

theorem behind_run {run : List Char} {before : Option Char} :
    Behind run (cs.takeWhile isTagChar).length before cs ↔ Behind run 0 before cs := by
  constructor
  · rintro ⟨l, r, split, -, place⟩
    exact ⟨l, r, split, Nat.zero_le _, place⟩
  · rintro ⟨l, r, rfl, -, place⟩
    exact ⟨l, r, rfl, takeWhile_hash l r, place⟩

theorem mem_runsFrom {skip : Nat} {before : Option Char} {run : List Char} :
    run ∈ runsFrom skip before cs ↔ Behind run skip before cs := by
  fun_induction runsFrom skip before cs with
  | case1 => simp [Behind]
  | case2 skip before c rest ih => simp [behind_cons, ih]
  | case3 before c rest own here ih =>
    simp only [Bool.and_eq_true, beq_iff_eq, Bool.not_eq_true', List.isEmpty_eq_false_iff] at here
    obtain ⟨⟨rfl, may⟩, some⟩ := here
    rw [List.mem_cons, ih, behind_run, behind_cons]
    constructor
    · rintro (rfl | later)
      · exact .inl ⟨rfl, rfl, may, rfl, some⟩
      · exact .inr later
    · rintro (⟨-, -, -, rfl, -⟩ | later)
      · exact .inl rfl
      · exact .inr later
  | case4 before c rest own nothing ih =>
    rw [ih, behind_cons]
    refine ⟨.inr, fun place => place.resolve_left ?_⟩
    rintro ⟨-, rfl, may, rfl, some⟩
    have nonempty : own.isEmpty = false := List.isEmpty_eq_false_iff.2 some
    exact nothing (by simp [may, nonempty])

/-- Pieces before a number sign and behind it make a tag, with code read as it is or left out. -/
def Tagged (read : Piece → List Char) (before after : List Piece) (t : String) : Prop :=
  mayPrecede (before.flatMap read).getLast? = true ∧
    clean (String.ofList ((after.flatMap read).takeWhile isTagChar)) = t

/-- No code stands right before the number sign or within the run behind it. -/
def Uncut (before after : List Piece) : Prop :=
  (∀ text, before.getLast? ≠ some (.code text)) ∧
    ((after.flatMap Piece.kept).takeWhile isTagChar).map Piece.plain <+: after

theorem kept_plain (l : List Char) : (l.map Piece.plain).flatMap Piece.kept = l := by
  simp [List.flatMap_map, Piece.kept]

theorem source_plain (l : List Char) : (l.map Piece.plain).flatMap Piece.source = l := by
  simp [List.flatMap_map, Piece.source]

theorem exists_plain {ps : List Piece} {l r : List Char} {c : Char} (h : ps.flatMap Piece.kept = l ++ c :: r) :
    ∃ before after, ps = before ++ .plain c :: after ∧ before.flatMap Piece.kept = l ∧
      after.flatMap Piece.kept = r := by
  induction ps generalizing l with
  | nil => simp at h
  | cons p ps ih =>
    rw [List.flatMap_cons] at h
    cases p with
    | code text =>
      obtain ⟨before, after, rfl, kept⟩ := ih h
      exact ⟨.code text :: before, after, rfl, kept⟩
    | plain d =>
      cases l with
      | nil =>
        cases h
        exact ⟨[], ps, rfl, rfl, rfl⟩
      | cons e l =>
        obtain ⟨rfl, rest⟩ := List.cons.inj h
        obtain ⟨before, after, rfl, rfl, kept⟩ := ih rest
        exact ⟨.plain d :: before, after, rfl, rfl, kept⟩

theorem mem_inBody_iff {body : String} {t : String} : t ∈ inBody body ↔ isNumeric t = false ∧
    ∃ before after, pieces body.toList = before ++ .plain '#' :: after ∧ Tagged Piece.kept before after t := by
  have numericEmpty : isNumeric "" = true := by decide +kernel
  rw [inBody, mem_gather, List.mem_filter, List.mem_map]
  simp only [mem_runsFrom, Bool.not_eq_true', ← (layout_pieces body.toList).kept]
  constructor
  · rintro ⟨⟨⟨run, ⟨l, r, split, -, may, rfl, -⟩, cleaned⟩, letters⟩, -⟩
    obtain ⟨before, after, whole, rfl, rfl⟩ := exists_plain split
    exact ⟨letters, before, after, whole, by simpa using may, cleaned⟩
  · rintro ⟨letters, before, after, whole, may, cleaned⟩
    have nonempty : t ≠ "" := by
      rintro rfl
      simp [numericEmpty] at letters
    have behind : Behind ((after.flatMap Piece.kept).takeWhile isTagChar) 0 none
        ((pieces body.toList).flatMap Piece.kept) := by
      refine ⟨before.flatMap Piece.kept, after.flatMap Piece.kept, ?_, Nat.zero_le _, by simpa using may, rfl, ?_⟩
      · simp [whole, Piece.kept]
      · intro empty
        rw [empty] at cleaned
        exact nonempty (cleaned.symm.trans (by decide +kernel))
    exact ⟨⟨⟨_, behind, cleaned⟩, letters⟩, nonempty⟩

/-- Where no code cuts in, a tag is there with code and without it. -/
theorem Layout.tagged_iff {body : List Char} {before after : List Piece} {c : Char} {t : String}
    (layout : Layout body (before ++ .plain c :: after)) (uncut : Uncut before after) :
    Tagged Piece.kept before after t ↔ Tagged Piece.source before after t := by
  obtain ⟨apart, rest, whole⟩ := uncut
  have neighbour : (before.flatMap Piece.kept).getLast? = (before.flatMap Piece.source).getLast? := by
    rcases List.eq_nil_or_concat before with rfl | ⟨before, p, rfl⟩
    · rfl
    · cases p with
      | plain d => simp [Piece.kept, Piece.source]
      | code text => exact (apart text (by simp)).elim
  have run : (after.flatMap Piece.kept).takeWhile isTagChar = (after.flatMap Piece.source).takeWhile isTagChar := by
    generalize taken : (after.flatMap Piece.kept).takeWhile isTagChar = run at whole
    have chars : ∀ d ∈ run, isTagChar d = true := by
      rw [← taken]
      exact List.all_eq_true.1 List.all_takeWhile
    subst whole
    rw [List.flatMap_append, kept_plain, List.takeWhile_append_of_pos chars, List.append_right_eq_self] at taken
    rw [List.flatMap_append, source_plain, List.takeWhile_append_of_pos chars, eq_comm, List.append_right_eq_self]
    cases rest with
    | nil => rfl
    | cons p rest =>
      cases p with
      | plain d =>
        have other : isTagChar d = false := by simpa [Piece.kept, List.takeWhile_cons] using taken
        simp [Piece.source, other]
      | code text =>
        have isCode : IsCode text := layout.code (by simp)
        obtain ⟨d, -, head, -, other, -⟩ := isCode.ends
        cases text with
        | nil => cases head
        | cons e text =>
          cases head
          simp [Piece.source, other]
  rw [Tagged, Tagged, neighbour, run]

/-- The tags of a body are at number signs outside code, behind nothing, white space or an opening bracket, and with
their runs behind them. That is so when code is left out; unless code is cut out right before the number sign or within
the run, it is so in the body itself, and each such place of the body makes a tag. -/
theorem inBody_outside_code (body t : String) :
    Layout body.toList (pieces body.toList) ∧
      (t ∈ inBody body ↔ isNumeric t = false ∧
        ∃ before after, pieces body.toList = before ++ .plain '#' :: after ∧ Tagged Piece.kept before after t) ∧
      ∀ {before after : List Piece}, pieces body.toList = before ++ .plain '#' :: after → Uncut before after →
        (Tagged Piece.kept before after t ↔ Tagged Piece.source before after t) := by
  have layout := layout_pieces body.toList
  refine ⟨layout, mem_inBody_iff, fun whole uncut => ?_⟩
  rw [whole] at layout
  exact layout.tagged_iff uncut

theorem inBody_outside_code_keep :
    let body := "Real #keep and \x60#inline\x60 code"
    "keep" ∈ inBody body ∧ ∃ before after,
      pieces body.toList = before ++ .plain '#' :: after ∧ Tagged Piece.source before after "keep" := by
  intro body
  obtain ⟨-, found, agree⟩ := inBody_outside_code body "keep"
  let before := "Real ".toList.map Piece.plain
  let after := "keep and ".toList.map Piece.plain ++ .code "\x60#inline\x60".toList :: " code".toList.map Piece.plain
  have split : pieces body.toList = before ++ .plain '#' :: after := by decide +kernel
  have tagged : Tagged Piece.kept before after "keep" := ⟨by decide +kernel, by decide +kernel⟩
  have uncut : Uncut before after := ⟨nofun, by decide +kernel⟩
  have written := (agree split uncut).1 tagged
  exact ⟨found.2 ⟨by decide +kernel, before, after, split, tagged⟩, before, after, split, written⟩

/-- A number sign right behind a code span begins a tag, though no tag may begin there. -/
theorem tag_behind_code :
    "tag" ∈ inBody "\x60x\x60#tag" ∧ ¬∃ before after,
      pieces "\x60x\x60#tag".toList = before ++ .plain '#' :: after ∧ Tagged Piece.source before after "tag" := by
  refine ⟨by decide +kernel, ?_⟩
  rintro ⟨before, after, split, may, -⟩
  have whole : pieces "\x60x\x60#tag".toList =
      .code "\x60x\x60".toList :: .plain '#' :: "tag".toList.map Piece.plain := by decide +kernel
  rw [whole] at split
  rcases before with _ | ⟨p, _ | ⟨q, before⟩⟩
  · cases split
  · cases split
    exact absurd may (by decide +kernel)
  · have inside : Piece.plain '#' ∈ "tag".toList.map Piece.plain := by
      rw [(List.cons.inj (List.cons.inj split).2).2]
      simp
    exact absurd inside (by decide +kernel)

end VaultSchema.Tags
