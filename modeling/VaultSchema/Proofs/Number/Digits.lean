import VaultSchema.Proofs.Number.Shortest

set_option autoImplicit false

namespace VaultSchema

/-- A double that exists: its units have a significand of 53 binary digits, and are not too many. -/
inductive Binary64.Held : Binary64 → Prop where
  | nan : Held .nan
  | infinite (negative : Bool) : Held (.infinite negative)
  | finite (negative : Bool) {units : Nat} (double : Representable units) (small : units < overflowUnits) :
    Held (.finite negative units)

namespace Binary64

theorem held_ofRatio (negative : Bool) (n d : Nat) : (ofRatio negative n d).Held := by
  unfold ofRatio
  dsimp only
  have double := representable_roundUnits (n * unit) d
  have small := Nat.lt_or_ge (roundUnits (n * unit) d) overflowUnits
  cases small with
  | inl small =>
    rw [if_neg (Nat.not_le.2 small)]
    exact .finite negative double small
  | inr large =>
    rw [if_pos large]
    exact .infinite negative

theorem eq_of_finite? {x y : Binary64} (finite : x.finite? = some y) : x = y := by
  cases x with
  | nan => cases finite
  | infinite negative => cases finite
  | finite negative units => exact Option.some.inj finite

theorem held_ofInt? {i : Int} {x : Binary64} (rounded : ofInt? i = some x) : x.Held := by
  unfold ofInt? at rounded
  exact eq_of_finite? rounded ▸ held_ofRatio ..

theorem held_zero (negative : Bool) : (finite negative 0).Held := by
  refine .finite negative ⟨0, by simp⟩ ?_
  rw [Decimal.overflowUnits_eq]
  exact Nat.two_pow_pos _

end Binary64

namespace Decimal

open Binary64

theorem of_isDigit {P : Char → Prop} (each : ∀ k < 10, P (Char.ofNat ('0'.toNat + k))) {c : Char}
    (digit : isDigit c = true) : P c := by
  simp only [isDigit, Bool.and_eq_true, decide_eq_true_eq] at digit
  have low : '0'.toNat ≤ c.toNat := digit.1
  have high : c.toNat ≤ '9'.toNat := digit.2
  have nine : '9'.toNat = '0'.toNat + 9 := by decide
  have own := each (c.toNat - '0'.toNat) (by omega)
  rwa [Nat.add_sub_of_le low, Char.ofNat_toNat] at own

theorem held_nearest (negative : Bool) (s : Scientific) : (nearest negative s).Held := by
  unfold nearest
  dsimp only
  split
  · exact held_zero negative
  · split
    · exact .infinite negative
    · split
      · exact held_zero negative
      · split
        · exact held_ofRatio ..
        · exact held_ofRatio ..

theorem ofDigits_eq (cs : List Char) : ofDigits cs = Nat.ofDigitChars 10 cs 0 := by
  simp only [ofDigits, Nat.ofDigitChars, digitValue, Nat.mul_comm]

theorem ofDigits_append (cs ds : List Char) :
    ofDigits (cs ++ ds) = ofDigits cs * 10 ^ ds.length + ofDigits ds := by
  rw [ofDigits_eq, Nat.ofDigitChars_append, Nat.ofDigitChars_eq_ofDigitChars_zero, ← ofDigits_eq,
    ← ofDigits_eq, Nat.mul_comm]

theorem ofDigits_zeros (n : Nat) : ofDigits (List.replicate n '0') = 0 := by
  rw [ofDigits_eq, Nat.ofDigitChars_replicate_zero, Nat.mul_zero]

theorem ofDigits_toString (n : Nat) : ofDigits (toString n).toList = n := by
  rw [ofDigits_eq, Nat.toString_eq_repr, Nat.toList_repr, Nat.ofDigitChars_ten_toDigits]

theorem isDigit_of_mem_toString {n : Nat} {c : Char} (mem : c ∈ (toString n).toList) : isDigit c = true := by
  rw [Nat.toString_eq_repr, Nat.toList_repr] at mem
  have digit := Nat.isDigit_of_mem_toDigits (by decide) (by decide) mem
  unfold isDigit
  simpa [Char.isDigit, Char.le_def] using digit

theorem ofDigits_lt {cs : List Char} (digits : ∀ c ∈ cs, isDigit c = true) : ofDigits cs < 10 ^ cs.length := by
  induction cs using List.reverseRecOn with
  | nil => decide
  | append_singleton cs c ih =>
    have front := ih fun d mem => digits d (by simp [mem])
    have last : digitValue c < 10 := by
      have digit := digits c (by simp)
      simp only [isDigit, Bool.and_eq_true, decide_eq_true_eq, Char.le_def, UInt32.le_iff_toNat_le] at digit
      unfold digitValue
      change c.val.toNat - 48 < 10
      have high : c.val.toNat ≤ 57 := digit.2
      omega
    rw [ofDigits_append_singleton, List.length_append, List.length_singleton, Nat.pow_succ]
    omega

theorem length_toString_ofDigits {cs : List Char} (digits : ∀ c ∈ cs, isDigit c = true) (some : cs ≠ []) :
    (toString (ofDigits cs)).length ≤ cs.length := by
  rw [Nat.toString_eq_repr, ← String.length_toList, Nat.toList_repr]
  exact Nat.toDigits_length 10 _ _ (List.length_pos_iff.2 some) (ofDigits_lt digits)

theorem head?_toString {n : Nat} (pos : 0 < n) : (toString n).toList.head? ≠ some '0' := by
  rw [Nat.toString_eq_repr, Nat.toList_repr]
  induction n using Nat.base_induction 10 (by decide) with
  | single m small =>
    rw [Nat.toDigits_of_lt_base small]
    have all : ∀ k < 10, 0 < k → [Nat.digitChar k].head? ≠ some '0' := by decide
    exact all m small pos
  | digit m k small more ih =>
    rw [← Nat.toDigits_append_toDigits (by decide) more small, List.head?_append]
    have first := ih more
    cases head : (Nat.toDigits 10 m).head? with
    | none => exact absurd (List.head?_eq_none_iff.1 head) Nat.toDigits_ne_nil
    | some c => rwa [head] at first

namespace Scientific

def value (s : Scientific) : ℚ := s.mantissa * 10 ^ s.exponent

theorem numerator_div (s : Scientific) : (s.numerator : ℚ) = unit * s.value * s.denominator := by
  have parts : s.exponent = (s.exponent.toNat : Int) - ((-s.exponent).toNat : Int) := by omega
  have ten : (10 : ℚ) ^ s.exponent * 10 ^ (-s.exponent).toNat = 10 ^ s.exponent.toNat := by
    generalize s.exponent.toNat = up, (-s.exponent).toNat = down at *
    rw [parts, zpow_sub₀ (by norm_num), zpow_natCast, zpow_natCast, div_mul_cancel₀]
    exact pow_ne_zero _ (by norm_num)
  unfold numerator denominator value
  push_cast
  rw [← ten]
  ring

theorem cross_of_value {s t : Scientific} (same : s.value = t.value) :
    t.numerator * s.denominator = s.numerator * t.denominator := by
  have cross : (t.numerator * s.denominator : ℚ) = s.numerator * t.denominator := by
    rw [numerator_div, numerator_div, same]
    ring
  exact_mod_cast cross

end Scientific

/-- Whatever has the value of the shortest decimal of a double reads as the double. -/
theorem nearest_of_value {units : Nat} {s : Scientific} (negative : Bool) (some : 0 < units)
    (double : Representable units) (finite : units < overflowUnits)
    (same : s.value = (shortest units).value) : nearest negative s = .finite negative units :=
  nearest_within negative some double finite ((shortest_holds some double finite).congr
    (Scientific.denominator_pos _) (Scientific.denominator_pos _) (Scientific.cross_of_value same.symm))

structure Whole (cs : List Char) : Prop where
  digits : ∀ c ∈ cs, isDigit c = true
  some : cs ≠ []
  first : cs = ['0'] ∨ cs.head? ≠ Option.some '0'

theorem isDigit_zeros {n : Nat} {c : Char} (mem : c ∈ List.replicate n '0') : isDigit c = true := by
  rw [(List.mem_replicate.1 mem).2]
  decide

theorem whole_zero : Whole ['0'] := ⟨fun _ => isDigit_zeros (n := 1), List.cons_ne_nil _ _, Or.inl rfl⟩

/-- An exponent with its value: nothing, or a letter, a sign and digits. -/
inductive ExponentText : List Char → Int → Prop where
  | none : ExponentText [] 0
  | plus (ds : List Char) (digits : ∀ c ∈ ds, isDigit c = true) (some : ds ≠ []) :
      ExponentText ('e' :: '+' :: ds) (ofDigits ds)
  | minus (ds : List Char) (digits : ∀ c ∈ ds, isDigit c = true) (some : ds ≠ []) :
      ExponentText ('e' :: '-' :: ds) (-(ofDigits ds : Int))

def pointed (fraction : List Char) : List Char := if fraction.isEmpty then [] else '.' :: fraction

/-- A text denotes a decimal by its parts. Without a fraction it has an exponent. -/
structure Spells (whole fraction exponent : List Char) (s : Scientific) : Prop where
  front : Whole whole
  digits : ∀ c ∈ fraction, isDigit c = true
  marked : fraction ≠ [] ∨ exponent ≠ []
  denotes : ∃ e, ExponentText exponent e ∧ s = ⟨ofDigits (whole ++ fraction), e - fraction.length⟩

def Denotes (text : List Char) (v : ℚ) : Prop := ∃ whole fraction exponent s,
  text = whole ++ (pointed fraction ++ exponent) ∧ Spells whole fraction exponent s ∧ s.value = v

theorem denotes_of_parts {whole fraction exponent : List Char} {e : Int} {v : ℚ} (front : Whole whole)
    (digits : ∀ c ∈ fraction, isDigit c = true) (marked : fraction ≠ [] ∨ exponent ≠ [])
    (text : ExponentText exponent e)
    (value : (ofDigits (whole ++ fraction) : ℚ) * 10 ^ (e - fraction.length) = v) :
    Denotes (whole ++ (pointed fraction ++ exponent)) v :=
  ⟨whole, fraction, exponent, _, rfl, ⟨front, digits, marked, e, text, rfl⟩, value⟩

theorem exponentText_denotes (e : Int) : ExponentText ('e' :: (exponentText e).toList) e := by
  obtain ⟨ds, digits, value, some, text⟩ : ∃ ds : List Char, (∀ c ∈ ds, isDigit c = true) ∧
      ofDigits ds = e.natAbs ∧ ds ≠ [] ∧
        (exponentText e).toList = (if e < 0 then '-' else '+') :: ds := by
    refine ⟨(if (toString e.natAbs).length < 2 then ['0'] else []) ++ (toString e.natAbs).toList, ?_, ?_, ?_, ?_⟩
    · intro c mem
      rcases List.mem_append.1 mem with mem | mem
      · obtain rfl : c = '0' := by
          split at mem <;> simp_all
        decide
      · exact isDigit_of_mem_toString mem
    · rw [ofDigits_append, ofDigits_toString]
      split <;> simp [ofDigits, digitValue]
    · rw [Nat.toString_eq_repr, Nat.toList_repr]
      exact List.append_ne_nil_of_right_ne_nil _ Nat.toDigits_ne_nil
    · unfold exponentText
      dsimp only
      split <;> split <;> simp
  rw [text]
  by_cases negative : e < 0
  · have denotes := ExponentText.minus ds digits some
    rw [value, show -(e.natAbs : Int) = e by omega] at denotes
    rwa [if_pos negative]
  · have denotes := ExponentText.plus ds digits some
    rw [value, show (e.natAbs : Int) = e by omega] at denotes
    rwa [if_neg negative]

theorem Whole.take {digits : List Char} (h : Whole digits) {n : Nat} (pos : 0 < n) : Whole (digits.take n) := by
  obtain ⟨m, rfl⟩ : ∃ m, n = m + 1 := ⟨n - 1, by omega⟩
  obtain ⟨all, some, first⟩ := h
  cases digits with
  | nil => exact (some rfl).elim
  | cons d rest =>
    refine ⟨fun c mem => all c (List.mem_of_mem_take mem), by simp, ?_⟩
    rcases first with single | first
    · exact Or.inl (by simp_all)
    · exact Or.inr (by simpa using first)

section digitsText

variable {digits : List Char} (front : Whole digits)

include front

theorem denotes_small (n : Nat) : Denotes ("0." ++ String.ofList (List.replicate n '0' ++ digits)).toList
    (ofDigits digits * 10 ^ (-(n : Int) - digits.length)) := by
  have text : ("0." ++ String.ofList (List.replicate n '0' ++ digits)).toList =
      ['0'] ++ (pointed (List.replicate n '0' ++ digits) ++ []) := by
    simp [pointed, front.some]
  rw [text]
  refine denotes_of_parts whole_zero ?_ (Or.inl (by simp [front.some])) .none ?_
  · exact fun c mem => (List.mem_append.1 mem).elim isDigit_zeros (front.digits c)
  · rw [ofDigits_append, ofDigits_append, ofDigits_zeros]
    simp [ofDigits, digitValue, sub_eq_add_neg, add_comm]

theorem denotes_short {n : Nat} (pos : 0 < n) (short : n < digits.length) :
    Denotes (String.ofList (digits.take n) ++ "." ++ String.ofList (digits.drop n)).toList
      (ofDigits digits * 10 ^ ((n : Int) - digits.length)) := by
  have rest : digits.drop n ≠ [] := by simpa using short
  have text : (String.ofList (digits.take n) ++ "." ++ String.ofList (digits.drop n)).toList =
      digits.take n ++ (pointed (digits.drop n) ++ []) := by
    simp [pointed, short]
  rw [text]
  refine denotes_of_parts (front.take pos) (fun c mem => front.digits c (List.mem_of_mem_drop mem))
    (Or.inl rest) .none ?_
  rw [List.take_append_drop, List.length_drop, Nat.cast_sub short.le]
  congr 2
  ring

theorem denotes_long (first : digits.head? ≠ some '0') {n : Nat} (long : digits.length ≤ n) :
    Denotes (String.ofList (digits ++ List.replicate (n - digits.length) '0') ++ ".0").toList
      (ofDigits digits * 10 ^ ((n : Int) - digits.length)) := by
  have text : (String.ofList (digits ++ List.replicate (n - digits.length) '0') ++ ".0").toList =
      (digits ++ List.replicate (n - digits.length) '0') ++ (pointed ['0'] ++ []) := by
    simp [pointed]
  rw [text]
  refine denotes_of_parts ⟨?_, by simp [front.some], Or.inr ?_⟩ (fun _ => isDigit_zeros (n := 1))
    (Or.inl (List.cons_ne_nil _ _)) .none ?_
  · exact fun c mem => (List.mem_append.1 mem).elim (front.digits c) isDigit_zeros
  · rw [List.head?_append]
    cases head : digits.head? with
    | none => exact (front.some (List.head?_eq_none_iff.1 head)).elim
    | some c => rwa [head] at first
  · rw [ofDigits_append, ofDigits_append, ofDigits_zeros, ← Nat.cast_sub long]
    simp [ofDigits, digitValue, mul_assoc]

theorem denotes_scientific (point : Int) :
    Denotes (String.ofList (digits.take 1)
      ++ (if (digits.drop 1).isEmpty then "" else "." ++ String.ofList (digits.drop 1))
      ++ "e" ++ exponentText (point - 1)).toList (ofDigits digits * 10 ^ (point - digits.length)) := by
  have text : (String.ofList (digits.take 1)
      ++ (if (digits.drop 1).isEmpty then "" else "." ++ String.ofList (digits.drop 1))
      ++ "e" ++ exponentText (point - 1)).toList =
        digits.take 1 ++ (pointed (digits.drop 1) ++ 'e' :: (exponentText (point - 1)).toList) := by
    unfold pointed
    split <;> simp
  rw [text]
  refine denotes_of_parts (front.take (by decide)) (fun c mem => front.digits c (List.mem_of_mem_drop mem))
    (Or.inr (by simp)) (exponentText_denotes _) ?_
  have some := List.length_pos_iff.2 front.some
  rw [List.take_append_drop, List.length_drop, Nat.cast_sub some]
  congr 2
  push_cast
  ring

theorem denotes_digitsText (style : Style) (first : digits.head? ≠ some '0') (point : Int) :
    Denotes (digitsText style digits point).toList (ofDigits digits * 10 ^ (point - digits.length)) := by
  unfold digitsText
  by_cases positional : (style.leastPoint ≤ point && point ≤ style.greatestPoint) = true
  · rw [if_pos positional]
    by_cases small : point ≤ 0
    · rw [if_pos small]
      have denotes := denotes_small front (-point).toNat
      rwa [show -((-point).toNat : Int) = point by omega] at denotes
    · rw [if_neg small]
      dsimp only
      have whole : (point.toNat : Int) = point := by omega
      by_cases short : point.toNat < digits.length
      · rw [if_pos short]
        have denotes := denotes_short front (n := point.toNat) (by omega) short
        rwa [whole] at denotes
      · rw [if_neg short]
        have denotes := denotes_long front first (n := point.toNat) (Nat.le_of_not_lt short)
        rwa [whole] at denotes
  · rw [if_neg positional]
    exact denotes_scientific front point

end digitsText

theorem trimTrailingZeros_append (digits : List Char) : ∃ n,
    digits = trimTrailingZeros digits ++ List.replicate n '0' := by
  refine ⟨(digits.reverse.takeWhile (· == '0')).length, ?_⟩
  have zeros : digits.reverse.takeWhile (· == '0') =
      List.replicate (digits.reverse.takeWhile (· == '0')).length '0' := by
    rw [List.eq_replicate_iff]
    exact ⟨rfl, fun c mem => by simpa using List.mem_takeWhile_imp mem⟩
  unfold trimTrailingZeros
  conv_lhs => rw [← List.reverse_reverse digits, ← List.takeWhile_append_dropWhile (p := (· == '0'))
    (l := digits.reverse), List.reverse_append, zeros, List.reverse_replicate]

theorem shortest_pos {units : Nat} (some : 0 < units) (double : Representable units)
    (finite : units < overflowUnits) : 0 < (shortest units).mantissa := by
  by_contra zero
  have none : (shortest units).numerator = 0 := by
    unfold Scientific.numerator
    rw [Nat.eq_zero_of_not_pos zero, Nat.zero_mul]
  have least := (shortest_holds some double finite).bounds.1
  have low := (neighbourhood_bounds some double).1
  have pos := Nat.mul_pos (show 0 < (neighbourhood units).low by omega)
    (shortest units).denominator_pos
  omega

theorem denotes_magnitudeText (style : Style) {units : Nat} (some : 0 < units) (double : Representable units)
    (finite : units < overflowUnits) :
    Denotes (magnitudeText style units).toList (shortest units).value := by
  have pos := shortest_pos some double finite
  unfold magnitudeText
  rw [if_neg some.ne']
  generalize shortest units = s at pos
  obtain ⟨n, all⟩ := trimTrailingZeros_append (toString s.mantissa).toList
  have value := ofDigits_toString s.mantissa
  have first := head?_toString pos
  have digits : ∀ c ∈ (toString s.mantissa).toList, isDigit c = true := fun c => isDigit_of_mem_toString
  dsimp only
  generalize (toString s.mantissa).toList = written at *
  generalize trimTrailingZeros written = trimmed at *
  subst all
  rw [ofDigits_append, ofDigits_zeros, List.length_replicate, Nat.add_zero] at value
  have front : trimmed ≠ [] := by
    rintro rfl
    rw [ofDigits, List.foldl_nil, Nat.zero_mul] at value
    omega
  have first : trimmed.head? ≠ Option.some '0' := by
    cases trimmed with
    | nil => exact (front rfl).elim
    | cons c rest => simpa using first
  have plain : Whole trimmed := ⟨fun c mem => digits c (List.mem_append_left _ mem), front, Or.inr first⟩
  have denotes := denotes_digitsText plain style first
    ((trimmed ++ List.replicate n '0').length + s.exponent)
  have same : (ofDigits trimmed : ℚ) *
      10 ^ ((((trimmed ++ List.replicate n '0').length : Nat) : Int) + s.exponent - trimmed.length) =
        s.value := by
    have exponent : (((trimmed ++ List.replicate n '0').length : Nat) : Int) + s.exponent -
        trimmed.length = n + s.exponent := by
      rw [List.length_append, List.length_replicate]
      push_cast
      ring
    unfold Scientific.value
    rw [exponent, zpow_add₀ (by norm_num), ← value, zpow_natCast]
    push_cast
    ring
  rwa [same] at denotes

end Decimal
end VaultSchema
