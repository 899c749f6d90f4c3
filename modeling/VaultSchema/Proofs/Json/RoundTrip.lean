import VaultSchema.Proofs.Json.Number
import VaultSchema.Proofs.Json.Plain
import VaultSchema.Proofs.Json.Quoted

/-! The text of a value that JSON keeps reads as the value. Readers are given the text of a value
with anything behind it that may follow a value; so each composed value is read part by part. -/

set_option autoImplicit false

namespace VaultSchema.Json

open Decimal

/-- A text reads as a value, whatever ends it. -/
def Reads (cs : List Char) (v : Value) : Prop :=
  ∀ fuel rest, cs.length ≤ fuel → Ends rest → readValue? fuel (cs ++ rest) = some (v, rest)

/-- Characters with which no value begins. -/
def barren : List Char := [' ', '\t', '\n', '\r', ']', Char.ofNat 0xfeff]

theorem readValue?_barren {c : Char} (mem : c ∈ barren) (fuel : Nat) (cs : List Char) :
    readValue? fuel (c :: cs) = none := by
  cases fuel with
  | zero => rfl
  | succ fuel =>
    simp only [barren, List.mem_cons, List.not_mem_nil, or_false] at mem
    obtain rfl | rfl | rfl | rfl | rfl | rfl := mem
    all_goals simp [readValue?, readWord?, words, readNumber?, takeWhole?, isDigit]

theorem ends_nil : Ends [] := by simp [Ends]

theorem ends_cons {c : Char} (cs : List Char) (closing : c ∈ enders) : Ends (c :: cs) := by
  intro d first
  obtain rfl : c = d := by simpa using first
  exact closing

def Blank (cs : List Char) : Prop := ∀ c ∈ cs, isSpace c = true

theorem skipSpace_blank {cs : List Char} (blank : Blank cs) (rest : List Char) :
    skipSpace (cs ++ rest) = skipSpace rest := List.dropWhile_append_of_pos blank

theorem Blank.ends {cs rest : List Char} (blank : Blank cs) (ends : Ends rest) : Ends (cs ++ rest) := by
  cases cs with
  | nil => exact ends
  | cons c cs =>
    refine ends_cons _ ?_
    have space := blank c List.mem_cons_self
    simp only [isSpace, Bool.or_eq_true, beq_iff_eq, or_assoc] at space
    rcases space with rfl | rfl | rfl | rfl <;> simp [enders]

theorem Reads.opens {cs : List Char} {v : Value} (reads : Reads cs v) :
    ∃ c more, cs = c :: more ∧ c ∉ barren := by
  have whole := reads cs.length [] (Nat.le_refl _) ends_nil
  cases cs with
  | nil => simp [readValue?] at whole
  | cons c more =>
    refine ⟨c, more, rfl, fun mem => ?_⟩
    rw [List.cons_append, readValue?_barren mem] at whole
    cases whole

theorem skipSpace_cons {c : Char} (solid : isSpace c = false) (cs : List Char) : skipSpace (c :: cs) = c :: cs := by
  simp [skipSpace, solid]

theorem not_isSpace_of_not_barren {c : Char} (opens : c ∉ barren) : isSpace c = false := by
  simp only [barren, List.mem_cons, not_or] at opens
  simp [isSpace, opens]

theorem Reads.skipSpace {cs : List Char} {v : Value} (reads : Reads cs v) (rest : List Char) :
    Json.skipSpace (cs ++ rest) = cs ++ rest := by
  obtain ⟨c, more, rfl, opens⟩ := reads.opens
  exact skipSpace_cons (not_isSpace_of_not_barren opens) _

def joined (gap : List Char) : List (List Char) → List Char
  | [] => []
  | first :: rest => first ++ rest.flatMap fun cs => ',' :: (gap ++ cs)

theorem joined_cons_cons (gap first second : List Char) (rest : List (List Char)) :
    joined gap (first :: second :: rest) = first ++ ',' :: (gap ++ joined gap (second :: rest)) := by
  simp [joined]

theorem toList_joined {between : String} {gap : List Char} (same : between.toList = ',' :: gap) (texts : List String) :
    (between.intercalate texts).toList = joined gap (texts.map String.toList) := by
  rw [String.toList_intercalate]
  induction texts with
  | nil => rfl
  | cons first rest ih =>
    cases rest with
    | nil => simp [joined]
    | cons second rest =>
      rw [List.map_cons, List.map_cons, List.intercalate_cons_cons, ← List.map_cons, ih, List.map_cons,
        joined_cons_cons, List.append_assoc, same]
      rfl

section gaps

variable {gap closing : List Char}

theorem readItems?_joined (between : Blank gap) (after : Blank closing) {texts : List (List Char)}
    {items : List Value} (reads : List.Forall₂ Reads texts items) (some : texts ≠ []) {fuel : Nat}
    (enough : (joined gap texts).length < fuel) (rest : List Char) :
    readItems? fuel (joined gap texts ++ (closing ++ ']' :: rest)) = .some (items, rest) := by
  induction reads generalizing fuel with
  | nil => exact (some rfl).elim
  | @cons text v texts items first others ih =>
    obtain ⟨fuel, rfl⟩ : ∃ n, fuel = n + 1 := ⟨fuel - 1, by omega⟩
    cases others with
    | nil =>
      simp only [joined, List.flatMap_nil, List.append_nil] at enough ⊢
      have ends := after.ends (ends_cons (c := ']') rest (by simp [enders]))
      simp [readItems?, first fuel (closing ++ ']' :: rest) (by omega) ends, skipSpace_blank after,
        skipSpace_cons (c := ']') (by decide)]
    | @cons second w texts items next others =>
      rw [joined_cons_cons, List.length_append, List.length_cons, List.length_append] at enough
      have more := @ih (List.cons_ne_nil _ _) fuel (by omega)
      have opens : skipSpace (gap ++ (joined gap (second :: texts) ++ (closing ++ ']' :: rest))) =
          joined gap (second :: texts) ++ (closing ++ ']' :: rest) := by
        rw [skipSpace_blank between, joined, List.append_assoc]
        exact next.skipSpace _
      rw [joined_cons_cons, List.append_assoc, List.cons_append, List.append_assoc]
      have ends := ends_cons (c := ',') (gap ++ (joined gap (second :: texts) ++ (closing ++ ']' :: rest)))
        (by simp [enders])
      simp [readItems?, first fuel _ (by omega) ends, skipSpace_cons (c := ',') (by decide), opens, more]

end gaps

theorem readQuoted?_quoted (s : String) (rest : List Char) : ∃ more, (quoted s).toList ++ rest = '"' :: more ∧
    readQuoted? (more.length + 1) [] more = some (s, rest) := by
  refine ⟨(s.toList.flatMap fun c => (escapeChar c).toList) ++ '"' :: rest, ?_, ?_⟩
  · rw [toList_quoted]
    simp
  · have enough := length_le_flatMap_escapeChar s.toList
    rw [readQuoted?_text]
    · simp
    · rw [List.length_append]
      omega

theorem reads_quoted (s : String) : Reads (quoted s).toList (.text s) := by
  intro fuel rest enough _
  have some : (quoted s).toList.length ≠ 0 := by
    rw [toList_quoted]
    simp
  obtain ⟨fuel, rfl⟩ : ∃ n, fuel = n + 1 := ⟨fuel - 1, by omega⟩
  obtain ⟨more, text, read⟩ := readQuoted?_quoted s rest
  rw [text]
  simp [readValue?, read]

def member (gap : List Char) (m : String × List Char) : List Char := (quoted m.1).toList ++ ':' :: (gap ++ m.2)

section gaps

variable {gap inner closing : List Char}

theorem skipSpace_member (m : String × List Char) (rest : List Char) :
    skipSpace (member inner m ++ rest) = member inner m ++ rest := by
  rw [member, toList_quoted]
  rfl

/-- A member begins with its key, a colon and blanks, behind which its value stands. -/
theorem exists_member (inside : Blank inner) (m : String × List Char) {v : Value} (reads : Reads m.2 v)
    (rest : List Char) : ∃ behind after, member inner m ++ rest = '"' :: behind ∧
      readQuoted? (behind.length + 1) [] behind = some (m.1, ':' :: after) ∧ skipSpace after = m.2 ++ rest := by
  obtain ⟨behind, text, read⟩ := readQuoted?_quoted m.1 (':' :: (inner ++ (m.2 ++ rest)))
  refine ⟨behind, inner ++ (m.2 ++ rest), ?_, read, ?_⟩
  · rw [member, List.append_assoc, List.cons_append, List.append_assoc, text]
  · rw [skipSpace_blank inside, reads.skipSpace rest]

theorem readMembers?_last (inside : Blank inner) {m : String × List Char} {v : Value} (reads : Reads m.2 v)
    {fuel : Nat} (enough : m.2.length ≤ fuel) {rest more : List Char} (ends : Ends rest)
    (closes : skipSpace rest = '\x7d' :: more) :
    readMembers? (fuel + 1) (member inner m ++ rest) = some ([(.text m.1, v)], more) := by
  obtain ⟨behind, after, text, key, value⟩ := exists_member inside m reads rest
  rw [text]
  simp [readMembers?, key, skipSpace_cons (c := ':') (by decide), value, reads fuel rest enough ends, closes]

theorem readMembers?_next (inside : Blank inner) {m : String × List Char} {v : Value} (reads : Reads m.2 v)
    {fuel : Nat} (enough : m.2.length ≤ fuel) {rest more : List Char} (ends : Ends rest)
    (goes : skipSpace rest = ',' :: more) {entries : Entries} {last : List Char}
    (others : readMembers? fuel (skipSpace more) = some (entries, last)) :
    readMembers? (fuel + 1) (member inner m ++ rest) = some ((.text m.1, v) :: entries, last) := by
  obtain ⟨behind, after, text, key, value⟩ := exists_member inside m reads rest
  rw [text]
  simp [readMembers?, key, skipSpace_cons (c := ':') (by decide), value, reads fuel rest enough ends, goes, others]

theorem readMembers?_joined (inside : Blank inner) (between : Blank gap) (after : Blank closing)
    {members : List (String × List Char)} {entries : Entries}
    (reads : List.Forall₂ (fun m e => e.1 = .text m.1 ∧ Reads m.2 e.2) members entries)
    (some : members ≠ []) {fuel : Nat} (enough : (joined gap (members.map (member inner))).length < fuel)
    (rest : List Char) :
    readMembers? fuel (joined gap (members.map (member inner)) ++ (closing ++ '\x7d' :: rest)) =
      .some (entries, rest) := by
  induction reads generalizing fuel with
  | nil => exact (some rfl).elim
  | @cons m e members entries first others ih =>
    obtain ⟨key, v⟩ := e
    obtain ⟨rfl, value⟩ := first
    obtain ⟨fuel, rfl⟩ : ∃ n, fuel = n + 1 := ⟨fuel - 1, by omega⟩
    have part : m.2.length ≤ (member inner m).length := by
      simp only [member, List.length_append, List.length_cons]
      omega
    cases others with
    | nil =>
      simp only [List.map_cons, List.map_nil, joined, List.flatMap_nil, List.append_nil] at enough ⊢
      refine readMembers?_last inside value (by omega) (after.ends (ends_cons rest (by simp [enders]))) ?_
      rw [skipSpace_blank after, skipSpace_cons (c := '\x7d') (by decide)]
    | @cons second e members entries next others =>
      rw [List.map_cons, List.map_cons, joined_cons_cons, ← List.map_cons (f := member inner)] at enough ⊢
      rw [List.length_append, List.length_cons, List.length_append] at enough
      have more := @ih (List.cons_ne_nil _ _) fuel (by omega)
      have opens : skipSpace (gap ++ (joined gap ((second :: members).map (member inner)) ++
          (closing ++ '\x7d' :: rest))) =
            joined gap ((second :: members).map (member inner)) ++ (closing ++ '\x7d' :: rest) := by
        rw [skipSpace_blank between, List.map_cons, joined, List.append_assoc]
        exact skipSpace_member second _
      rw [List.append_assoc, List.cons_append, List.append_assoc]
      exact readMembers?_next inside value (by omega) (ends_cons _ (by simp [enders]))
        (skipSpace_cons (c := ',') (by decide) _) (by rw [opens, more])

end gaps

/-- A layout that leaves members in their order and adds nothing but blanks. -/
structure Loose (layout : Layout) (gap inner : List Char) : Prop where
  unsorted : layout.sortKeys = false
  between : layout.between.toList = ',' :: gap
  afterKey : layout.afterKey.toList = ':' :: inner
  gap : Blank gap
  inner : Blank inner

theorem loose_spaced : Loose .spaced [' '] [' '] := by
  refine ⟨rfl, rfl, rfl, ?_, ?_⟩ <;> simp [Blank, isSpace]

theorem loose_indented : Loose .indented [] [' '] := by
  refine ⟨rfl, rfl, rfl, ?_, ?_⟩ <;> simp [Blank, isSpace]

theorem toList_enclose {layout : Layout} {gap inner : List Char} (loose : Loose layout gap inner) (depth : Nat)
    (left right : String) (members : List String) : ∃ opening gap closing, Blank opening ∧ Blank gap ∧
      Blank closing ∧ (enclose layout depth left right members).toList = left.toList ++
        (opening ++ (joined gap (members.map String.toList) ++ (closing ++ right.toList))) := by
  have none : Blank [] := fun c mem => (List.not_mem_nil mem).elim
  have line : ∀ width d, Blank ("\n" ++ String.ofList (List.replicate (width * d) ' ')).toList := by
    intro width d c mem
    simp only [String.toList_append, String.toList_ofList, List.mem_append, List.mem_replicate] at mem
    rcases mem with feed | ⟨_, rfl⟩
    · obtain rfl : c = '\n' := by simpa using feed
      rfl
    · rfl
  unfold enclose
  split
  · exact ⟨[], [], [], none, none, none, by simp [joined]⟩
  · refine ⟨[], gap, [], none, loose.gap, none, ?_⟩
    rw [String.toList_append, String.toList_append, toList_joined loose.between]
    simp
  · rename_i width _ _
    have deeper := line width (depth + 1)
    have back := line width depth
    dsimp only
    generalize "\n" ++ String.ofList (List.replicate (width * (depth + 1)) ' ') = opening at deeper ⊢
    generalize "\n" ++ String.ofList (List.replicate (width * depth) ' ') = closing at back ⊢
    have between : (layout.between ++ opening).toList = ',' :: (gap ++ opening.toList) := by
      rw [String.toList_append, loose.between, List.cons_append]
    refine ⟨opening.toList, gap ++ opening.toList, closing.toList, deeper, ?_, back, ?_⟩
    · exact fun c mem => (List.mem_append.1 mem).elim (loose.gap c) (deeper c)
    · rw [String.toList_append, String.toList_append, String.toList_append, String.toList_append,
        toList_joined between]
      simp only [List.append_assoc]

theorem readValue?_bracket {opening : List Char} (before : Blank opening) {c : Char} (solid : isSpace c = false)
    (more : c ≠ ']') (cs : List Char) (fuel : Nat) : readValue? (fuel + 1) ('[' :: (opening ++ c :: cs)) =
      (readItems? fuel (c :: cs)).bind fun (items, rest) => some (.list items, rest) := by
  rw [readValue?, skipSpace_blank before, skipSpace_cons solid]
  split
  · rename_i same
    exact (more (List.cons.inj same).1).elim
  · rfl

theorem readValue?_brace {opening : List Char} (before : Blank opening) {c : Char} (solid : isSpace c = false)
    (more : c ≠ '\x7d') (cs : List Char) (fuel : Nat) : readValue? (fuel + 1) ('\x7b' :: (opening ++ c :: cs)) =
      (readMembers? fuel (c :: cs)).bind fun (entries, rest) =>
        some (.mapping (Entries.ofList entries), rest) := by
  rw [readValue?, skipSpace_blank before, skipSpace_cons solid]
  split
  · rename_i same
    exact (more (List.cons.inj same).1).elim
  · rfl

theorem reads_list {opening gap closing : List Char} (before : Blank opening) (between : Blank gap)
    (after : Blank closing) {texts : List (List Char)} {items : List Value} (reads : List.Forall₂ Reads texts items) :
    Reads ('[' :: (opening ++ (joined gap texts ++ (closing ++ [']'])))) (.list items) := by
  intro fuel rest enough _
  simp only [List.length_cons, List.length_append] at enough
  obtain ⟨fuel, rfl⟩ : ∃ n, fuel = n + 1 := ⟨fuel - 1, by omega⟩
  simp only [List.cons_append, List.append_assoc, List.nil_append]
  cases reads with
  | nil =>
    have closed : skipSpace (opening ++ (closing ++ ']' :: rest)) = ']' :: rest := by
      rw [skipSpace_blank before, skipSpace_blank after, skipSpace_cons (by decide)]
    simp [readValue?, joined, closed]
  | @cons text v texts items first others =>
    have short : (joined gap (text :: texts)).length < fuel := by omega
    have read := readItems?_joined between after (.cons first others) (List.cons_ne_nil _ _) short rest
    obtain ⟨c, more, rfl, opens⟩ := first.opens
    rw [joined, List.append_assoc, List.cons_append] at read ⊢
    have open' : c ≠ ']' := fun same => opens (by simp [barren, same])
    rw [readValue?_bracket before (not_isSpace_of_not_barren opens) open', read]
    rfl

theorem reads_mapping {opening gap inner closing : List Char} (before : Blank opening) (between : Blank gap)
    (inside : Blank inner) (after : Blank closing) {members : List (String × List Char)} {entries : Entries}
    (reads : List.Forall₂ (fun m e => e.1 = .text m.1 ∧ Reads m.2 e.2) members entries)
    (distinct : (entries.map Prod.fst).Nodup) : Reads
      ('\x7b' :: (opening ++ (joined gap (members.map (member inner)) ++ (closing ++ ['\x7d'])))) (.mapping entries) := by
  intro fuel rest enough _
  simp only [List.length_cons, List.length_append] at enough
  obtain ⟨fuel, rfl⟩ : ∃ n, fuel = n + 1 := ⟨fuel - 1, by omega⟩
  simp only [List.cons_append, List.append_assoc, List.nil_append]
  have texts : ∀ e ∈ entries, ∃ key, e.1 = .text key := by
    intro e mem
    obtain ⟨m, _, key, _⟩ := Outcome.partner_left reads mem
    exact ⟨m.1, key⟩
  have whole := Entries.ofList_distinct texts distinct
  cases reads with
  | nil =>
    have closed : skipSpace (opening ++ (closing ++ '\x7d' :: rest)) = '\x7d' :: rest := by
      rw [skipSpace_blank before, skipSpace_blank after, skipSpace_cons (by decide)]
    simp [readValue?, joined, closed]
  | @cons m e members entries first others =>
    have short : (joined gap ((m :: members).map (member inner))).length < fuel := by omega
    have read := readMembers?_joined inside between after (.cons first others) (List.cons_ne_nil _ _) short rest
    rw [List.map_cons, joined, List.append_assoc, member, toList_quoted] at read ⊢
    rw [List.cons_append, List.cons_append, List.cons_append] at read ⊢
    rw [readValue?_brace before (by decide) (by decide), read, Option.bind_some]
    dsimp only
    rw [whole]

theorem Reads.of_read {cs : List Char} {v : Value} (read : ∀ fuel rest, Ends rest →
    readValue? (fuel + 1) (cs ++ rest) = some (v, rest)) : Reads cs v := by
  intro fuel rest enough ends
  cases fuel with
  | zero =>
    obtain rfl : cs = [] := List.eq_nil_of_length_eq_zero (Nat.le_zero.1 enough)
    have none := read 0 [] ends_nil
    simp [readValue?, readWord?, words, readNumber?, takeWhole?] at none
  | succ fuel => exact read fuel rest ends

theorem reads_null : Reads "null".toList .null :=
  .of_read fun fuel rest _ => by
    simp [readValue?, readWord?, words]
    rfl

theorem reads_bool (b : Bool) : Reads (if b then "true" else "false").toList (.bool b) := by
  refine .of_read fun fuel rest _ => ?_
  cases b with
  | true =>
    simp [readValue?, readWord?, words]
    rfl
  | false =>
    simp [readValue?, readWord?, words]
    rfl

theorem toList_integer (i : Int) :
    (toString i).toList = (if decide (i < 0) then ['-'] else []) ++ (toString i.natAbs).toList := by
  rw [Int.toString_eq_repr, Int.repr_eq_if, Nat.toString_eq_repr]
  by_cases negative : i < 0
  · rw [if_neg (by omega), if_pos (by simpa using negative), show (-i).toNat = i.natAbs by omega]
    simp
  · rw [if_pos (by omega), if_neg (by simpa using negative), show i.toNat = i.natAbs by omega]
    rfl

theorem whole_toString (n : Nat) : Whole (toString n).toList := by
  refine ⟨fun _ => isDigit_of_mem_toString, ?_, ?_⟩
  · rw [Nat.toString_eq_repr, Nat.toList_repr]
    exact Nat.toDigits_ne_nil
  · rcases Nat.eq_zero_or_pos n with rfl | pos
    · exact Or.inl rfl
    · exact Or.inr (head?_toString pos)

theorem reads_integer {i : Int} (short : (toString i.natAbs).length ≤ greatestDigitCount) :
    Reads (toString i).toList (.int i) := by
  refine .of_read fun fuel rest ends => ?_
  have front := whole_toString i.natAbs
  have read := readNumber?_whole front ends (by rwa [String.length_toList]) (decide (i < 0))
  have same : (if decide (i < 0) then -(ofDigits (toString i.natAbs).toList : Int) else
      ofDigits (toString i.natAbs).toList) = i := by
    rw [ofDigits_toString]
    by_cases negative : i < 0
    · rw [if_pos (by simpa using negative)]
      omega
    · rw [if_neg (by simpa using negative)]
      omega
  rw [same] at read
  rw [toList_integer, List.append_assoc]
  obtain ⟨digits, some, _⟩ := front
  generalize (toString i.natAbs).toList = ds at *
  cases ds with
  | nil => exact (some rfl).elim
  | cons d more => rwa [List.cons_append, readValue?_digit (digits d (by simp))]

theorem members_of_lines {layout : Layout} {gap inner : List Char} (loose : Loose layout gap inner)
    {lines : List String} {entries : Entries}
    (pairs : List.Forall₂ (fun e line => ∃ key text, e.1 = .text key ∧
      line = quoted key ++ layout.afterKey ++ text ∧ Reads text.toList e.2) entries lines) :
    ∃ members, lines.map String.toList = members.map (member inner) ∧
      List.Forall₂ (fun m e => e.1 = .text m.1 ∧ Reads m.2 e.2) members entries := by
  induction pairs with
  | nil => exact ⟨[], rfl, .nil⟩
  | cons first _ ih =>
    obtain ⟨key, text, named, rfl, reads⟩ := first
    obtain ⟨members, same, others⟩ := ih
    refine ⟨(key, text.toList) :: members, ?_, .cons ⟨named, reads⟩ others⟩
    rw [List.map_cons, List.map_cons, same, member, String.toList_append, String.toList_append,
      List.append_assoc, loose.afterKey]
    rfl

theorem reads_written {layout : Layout} {gap inner : List Char} (loose : Loose layout gap inner) {v : Value}
    (plain : v.Plain) {depth : Nat} {text : String} (written : writeAt layout depth v = .ok text) :
    Reads text.toList v := by
  induction plain generalizing depth text with
  | null =>
    rw [writeAt, scalarText] at written
    cases written
    exact reads_null
  | bool b =>
    rw [writeAt, scalarText] at written
    cases written
    exact reads_bool b
  | int i short =>
    rw [writeAt, scalarText, integerText] at written
    rw [if_neg (Nat.not_lt.2 short)] at written
    cases written
    exact reads_integer short
  | float x held =>
    rw [writeAt, scalarText] at written
    cases written
    exact .of_read fun fuel rest ends => readValue?_float held ends fuel
  | text s =>
    rw [writeAt, scalarText] at written
    cases written
    exact reads_quoted s
  | list items plain ih =>
    rw [writeAt, writeItems_eq_map] at written
    obtain ⟨texts, collected, written⟩ := Outcome.bind_eq_ok.1 written
    cases written
    obtain ⟨opening, gap, closing, before, between, after, same⟩ := toList_enclose loose depth "[" "]" texts
    rw [same]
    refine reads_list before between after ?_
    have pairs := collect_eq_ok_iff.1 collected
    rw [List.forall₂_map_left_iff] at pairs ⊢
    refine ((List.forall₂_and_left _ _).2 ⟨fun _ mem => mem, pairs⟩).flip.imp ?_
    exact fun text v both => ih v both.1 both.2
  | mapping entries texts distinct plain ih =>
    rw [writeAt_mapping, if_neg (by simp [loose.unsorted]), writeEntries_eq_map] at written
    obtain ⟨members, made, written⟩ := Outcome.bind_eq_ok.1 written
    cases made
    obtain ⟨lines, collected, written⟩ := Outcome.bind_eq_ok.1 written
    cases written
    obtain ⟨opening, gap, closing, before, between, after, enclosed⟩ := toList_enclose loose depth "\x7b" "\x7d" lines
    rw [enclosed]
    have pairs := collect_eq_ok_iff.1 collected
    rw [List.forall₂_map_left_iff, List.forall₂_map_left_iff] at pairs
    obtain ⟨members, same, reads⟩ := members_of_lines loose <|
      ((List.forall₂_and_left _ _).2 ⟨fun _ mem => mem, pairs⟩).imp <| by
        intro e line both
        obtain ⟨mem, made⟩ := both
        obtain ⟨key, named⟩ := texts e mem
        rw [memberText, named] at made
        obtain ⟨_, named', made⟩ := Outcome.bind_eq_ok.1 made
        obtain ⟨text, written, made⟩ := Outcome.bind_eq_ok.1 made
        cases named'
        cases made
        exact ⟨key, text, named, rfl, ih e mem written⟩
    rw [same]
    exact reads_mapping before between loose.inner after reads distinct

theorem read?_write {layout : Layout} {gap inner : List Char} (loose : Loose layout gap inner) {v : Value}
    (plain : v.Plain) {text : String} (written : write layout v = .ok text) : read? text = some v := by
  have reads := reads_written loose plain written
  obtain ⟨c, more, same, opens⟩ := reads.opens
  have whole := reads ((text.toList).length + 1) [] (by omega) ends_nil
  have solid := not_isSpace_of_not_barren opens
  unfold read?
  rw [List.append_nil] at whole
  rw [same] at whole ⊢
  have mark : ((c :: more).head? == some (Char.ofNat 0xfeff)) = false := by
    simp only [barren, List.mem_cons, not_or] at opens
    simpa using opens.2.2.2.2.2.1
  dsimp only
  rw [mark, skipSpace_cons solid, whole]
  rfl

end VaultSchema.Json
