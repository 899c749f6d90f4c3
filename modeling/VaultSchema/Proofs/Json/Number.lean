import VaultSchema.Json.Reading
import VaultSchema.Json.Writing
import VaultSchema.Proofs.Number.Digits

set_option autoImplicit false

namespace VaultSchema

namespace Decimal

def Halts (rest : List Char) : Prop := ∀ c, rest.head? = some c → isDigit c = false

theorem takeWhile_digits {cs rest : List Char} (digits : ∀ c ∈ cs, isDigit c = true) (halts : Halts rest) :
    (cs ++ rest).takeWhile isDigit = cs := by
  rw [List.takeWhile_append_of_pos digits]
  cases rest with
  | nil => simp
  | cons c rest => simp [halts c rfl]

theorem dropWhile_digits {cs rest : List Char} (digits : ∀ c ∈ cs, isDigit c = true) (halts : Halts rest) :
    (cs ++ rest).dropWhile isDigit = rest := by
  rw [List.dropWhile_append_of_pos digits]
  cases rest with
  | nil => rfl
  | cons c rest => simp [halts c rfl]

theorem ExponentText.halts {cs rest : List Char} {e : Int} (text : ExponentText cs e) (halts : Halts rest) :
    Halts (cs ++ rest) := by
  cases text with
  | none => exact halts
  | plus ds _ _ | minus ds _ _ =>
    intro c first
    obtain rfl : c = 'e' := by simpa using first.symm
    decide

theorem halts_pointed {fraction rest : List Char} (halts : Halts rest) : Halts (pointed fraction ++ rest) := by
  unfold pointed
  split
  · exact halts
  · intro c first
    obtain rfl : c = '.' := by simpa using first.symm
    decide

theorem readExponent?_text {cs : List Char} {e : Int} (text : ExponentText cs e) : readExponent? cs = some e := by
  cases text with
  | none => rfl
  | plus ds digits some => simpa [readExponent?, splitSign, hasDigits, some] using digits
  | minus ds digits some => simpa [readExponent?, splitSign, hasDigits, some] using digits

theorem readUnsigned?_spells {whole fraction exponent : List Char} {s : Scientific}
    (h : Spells whole fraction exponent s) :
    readUnsigned? (whole ++ (pointed fraction ++ exponent)) = some s := by
  obtain ⟨front, digits, _, e, text, rfl⟩ := h
  have ends : Halts exponent := by
    have halts : Halts (exponent ++ []) := text.halts (by simp [Halts])
    rwa [List.append_nil] at halts
  unfold readUnsigned?
  rw [takeWhile_digits front.digits (halts_pointed ends), dropWhile_digits front.digits (halts_pointed ends)]
  have value := readExponent?_text text
  cases fraction with
  | nil => cases text <;> simp_all [pointed, front.some]
  | cons c cs =>
    have inner := takeWhile_digits digits ends
    have outer := dropWhile_digits digits ends
    rw [List.cons_append] at inner outer
    simp [pointed, inner, outer, value]

end Decimal

namespace Json

open Decimal

/-- Characters that may follow a value: a comma, a closing bracket, or a blank. -/
def enders : List Char := [',', ']', '\x7d', ' ', '\t', '\n', '\r']

def Ends (rest : List Char) : Prop := ∀ c, rest.head? = some c → c ∈ enders

theorem eq_of_mem_enders {c : Char} (mem : c ∈ enders) :
    c = ',' ∨ c = ']' ∨ c = '\x7d' ∨ c = ' ' ∨ c = '\t' ∨ c = '\n' ∨ c = '\r' := by
  simpa only [enders, List.mem_cons, List.not_mem_nil, or_false] using mem

theorem Ends.halts {rest : List Char} (ends : Ends rest) : Halts rest := by
  intro c first
  rcases eq_of_mem_enders (ends c first) with rfl | rfl | rfl | rfl | rfl | rfl | rfl <;> decide

theorem takeWhole?_append {whole rest : List Char} (front : Whole whole) (halts : Halts rest) :
    takeWhole? (whole ++ rest) = some (whole, rest) := by
  unfold takeWhole?
  rcases front.first with rfl | first
  · rfl
  · split
    · rename_i after same
      cases whole with
      | nil => exact (front.some rfl).elim
      | cons c cs =>
        obtain ⟨rfl, _⟩ := List.cons.inj same
        exact (first rfl).elim
    · rw [takeWhile_digits front.digits halts, dropWhile_digits front.digits halts]
      simp [front.some]

theorem takeFraction_append {fraction exponent rest : List Char} {e : Int}
    (digits : ∀ c ∈ fraction, isDigit c = true) (text : ExponentText exponent e) (ends : Ends rest) :
    takeFraction (pointed fraction ++ (exponent ++ rest)) = (pointed fraction, exponent ++ rest) := by
  have halts := text.halts ends.halts
  unfold pointed
  split_ifs with none
  · cases text with
    | none =>
      cases rest with
      | nil => rfl
      | cons c rest =>
        rcases eq_of_mem_enders (ends c rfl) with rfl | rfl | rfl | rfl | rfl | rfl | rfl <;> rfl
    | plus ds _ _ | minus ds _ _ => rfl
  · simp only [List.cons_append, takeFraction]
    rw [takeWhile_digits digits halts, dropWhile_digits digits halts, if_neg none]

theorem takeExponent_append {exponent rest : List Char} {e : Int} (text : ExponentText exponent e)
    (ends : Ends rest) : takeExponent (exponent ++ rest) = (exponent, rest) := by
  cases text with
  | none =>
    cases rest with
    | nil => rfl
    | cons c rest =>
      rcases eq_of_mem_enders (ends c rfl) with rfl | rfl | rfl | rfl | rfl | rfl | rfl <;> rfl
  | plus ds digits some =>
    simp [takeExponent, takeWhile_digits digits ends.halts, dropWhile_digits digits ends.halts, some]
  | minus ds digits some =>
    simp [takeExponent, takeWhile_digits digits ends.halts, dropWhile_digits digits ends.halts, some]

theorem split_sign {cs : List Char} (negative : Bool) (first : cs.head? ≠ some '-') :
    ((((if negative then ['-'] else []) ++ cs).head? == some '-') = negative) ∧
      (if negative then ((if negative then ['-'] else []) ++ cs).drop 1
        else (if negative then ['-'] else []) ++ cs) = cs := by
  cases negative with
  | true => exact ⟨rfl, rfl⟩
  | false => simpa using first

theorem head?_whole {whole : List Char} (front : Whole whole) (rest : List Char) :
    (whole ++ rest).head? ≠ some '-' := by
  rw [List.head?_append_of_ne_nil _ front.some]
  intro minus
  exact absurd (front.digits '-' (List.mem_of_mem_head? minus)) (by decide)

theorem readNumber?_whole {whole rest : List Char} (front : Whole whole) (ends : Ends rest)
    (short : whole.length ≤ greatestDigitCount) (negative : Bool) :
    readNumber? ((if negative then ['-'] else []) ++ (whole ++ rest)) =
      some (.int (if negative then -(ofDigits whole : Int) else ofDigits whole), rest) := by
  have plain : takeFraction rest = ([], rest) := by
    have taken : takeFraction (pointed [] ++ ([] ++ rest)) = (pointed [], [] ++ rest) :=
      takeFraction_append (by simp) .none ends
    simpa [pointed] using taken
  have none : takeExponent rest = ([], rest) := by simpa using takeExponent_append .none ends
  obtain ⟨sign, unsigned⟩ := split_sign negative (head?_whole front rest)
  unfold readNumber?
  simp only [sign, unsigned, takeWhole?_append front ends.halts, bind, Option.bind, plain, none,
    List.isEmpty_nil, Bool.and_true, if_true, if_neg (Nat.not_lt.2 short)]

theorem readNumber?_denotes {text rest : List Char} {v : ℚ} (denotes : Denotes text v) (ends : Ends rest)
    (negative : Bool) : ∃ s : Scientific, s.value = v ∧
      readNumber? ((if negative then ['-'] else []) ++ (text ++ rest)) =
        some (.float (nearest negative s), rest) := by
  obtain ⟨whole, fraction, exponent, s, rfl, spells, value⟩ := denotes
  refine ⟨s, value, ?_⟩
  obtain ⟨e, denotes, _⟩ := spells.denotes
  have halts : Halts (pointed fraction ++ (exponent ++ rest)) := halts_pointed (denotes.halts ends.halts)
  have first := head?_whole spells.front (pointed fraction ++ (exponent ++ rest))
  have marked : ((pointed fraction).isEmpty && exponent.isEmpty) = false := by
    rcases spells.marked with some | some
    · simp [pointed, some]
    · simp [some]
  unfold readNumber?
  simp only [List.append_assoc]
  have sign := split_sign negative first
  rw [sign.1, sign.2, takeWhole?_append spells.front halts]
  simp only [bind, Option.bind, takeFraction_append spells.digits denotes ends,
    takeExponent_append denotes ends, marked, Bool.false_eq_true, if_false, readUnsigned?_spells spells]

theorem readValue?_digit {d : Char} (digit : isDigit d = true) (negative : Bool) (rest : List Char)
    (fuel : Nat) : readValue? (fuel + 1) ((if negative then ['-'] else []) ++ d :: rest) =
      readNumber? ((if negative then ['-'] else []) ++ d :: rest) := by
  have other : ∀ c, isDigit c = false → d ≠ c := by
    rintro c none rfl
    exact absurd digit (by simp [none])
  have word : ∀ w ∈ words, w.1.toList.isPrefixOf ((if negative then ['-'] else []) ++ d :: rest) = false := by
    have front : ∀ (c : Char) (cs : List Char), isDigit c = false → (c :: cs).isPrefixOf (d :: rest) = false := by
      intro c cs none
      simp [List.isPrefixOf, Ne.symm (other c none)]
    intro w mem
    simp only [words, List.mem_cons, List.not_mem_nil, or_false] at mem
    cases negative with
    | true =>
      obtain rfl | rfl | rfl | rfl | rfl | rfl := mem
      all_goals simp [List.isPrefixOf, Ne.symm (other 'I' (by decide))]
    | false =>
      obtain rfl | rfl | rfl | rfl | rfl | rfl := mem
      all_goals exact front _ _ (by decide)
  have none : readWord? ((if negative then ['-'] else []) ++ d :: rest) = none := by
    unfold readWord?
    rw [List.findSome?_eq_none_iff]
    intro w mem
    simp [word w mem]
  rw [← Option.none_or (o := readNumber? _), ← none]
  cases negative with
  | true => rfl
  | false =>
    rw [readValue?.eq_def]
    dsimp only [List.nil_append, Bool.false_eq_true, if_false]
    split
    · rename_i same
      exact (other '"' (by decide) (List.cons.inj same).1).elim
    · rename_i same
      exact (other '[' (by decide) (List.cons.inj same).1).elim
    · rename_i same
      exact (other '\x7b' (by decide) (List.cons.inj same).1).elim
    · rfl

theorem readValue?_float {x : Binary64} (held : x.Held) {rest : List Char} (ends : Ends rest) (fuel : Nat) :
    readValue? (fuel + 1) ((Decimal.text numberStyle x).toList ++ rest) = some (.float x, rest) := by
  cases x with
  | nan =>
    simp [Decimal.text, numberStyle, readValue?, readWord?, words]
    rfl
  | infinite negative =>
    cases negative <;> simp [Decimal.text, numberStyle, readValue?, readWord?, words] <;> rfl
  | finite negative units =>
    obtain _ | _ | ⟨_, double, finite⟩ := held
    obtain ⟨v, denotes, reads⟩ : ∃ v : ℚ, Denotes (magnitudeText numberStyle units).toList v ∧
        ∀ s : Scientific, s.value = v → nearest negative s = .finite negative units := by
      rcases Nat.eq_zero_or_pos units with rfl | pos
      · refine ⟨0, ⟨['0'], ['0'], [], _, rfl, ⟨whole_zero, fun _ => isDigit_zeros (n := 1),
          Or.inl (List.cons_ne_nil _ _), _, .none, rfl⟩, by simp [Scientific.value, ofDigits, digitValue]⟩, ?_⟩
        intro s zero
        unfold Scientific.value at zero
        have none : s.mantissa = 0 := by
          have ten : (10 : ℚ) ^ s.exponent ≠ 0 := zpow_ne_zero _ (by norm_num)
          exact_mod_cast (mul_eq_zero.1 zero).resolve_right ten
        unfold nearest
        rw [if_pos none]
      · exact ⟨_, denotes_magnitudeText numberStyle pos double finite,
          fun s same => nearest_of_value negative pos double finite same⟩
    obtain ⟨s, value, read⟩ := readNumber?_denotes denotes ends negative
    rw [reads s value] at read
    have text : (Decimal.text numberStyle (.finite negative units)).toList ++ rest =
        (if negative then ['-'] else []) ++ ((magnitudeText numberStyle units).toList ++ rest) := by
      cases negative <;> simp [Decimal.text]
    obtain ⟨whole, fraction, exponent, _, parts, spells, _⟩ := denotes
    rw [text]
    cases digits : (magnitudeText numberStyle units).toList with
    | nil =>
      rw [digits] at parts
      exact (spells.front.some (List.append_eq_nil_iff.1 parts.symm).1).elim
    | cons d more =>
      have digit : isDigit d = true := by
        refine spells.front.digits d ?_
        rw [digits] at parts
        cases whole with
        | nil => exact (spells.front.some rfl).elim
        | cons c cs =>
          rw [(List.cons.inj parts).1]
          exact List.mem_cons_self
      rw [digits] at read
      rw [List.cons_append, readValue?_digit digit]
      exact read

end Json
end VaultSchema
