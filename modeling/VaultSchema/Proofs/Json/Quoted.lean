import VaultSchema.Json.Reading
import VaultSchema.Json.Writing

set_option autoImplicit false

namespace VaultSchema.Json

theorem hexValue?_hexDigit (n : Nat) : hexValue? (hexDigit n) = some (n % 16) := by
  have all : ∀ k < 16, hexValue? ((Nat.toDigits 16 k).headD '0') = some k := by decide
  exact all (n % 16) (Nat.mod_lt n (by decide))

theorem toList_hexText_four (n : Nat) : (hexText 4 n).toList =
    [hexDigit (n / 4096), hexDigit (n / 256), hexDigit (n / 16), hexDigit n] := by
  simp [hexText, List.range_succ]

theorem takeHex4?_hexText {n : Nat} (small : n < 0x10000) (rest : List Char) :
    takeHex4? ((hexText 4 n).toList ++ rest) = some (n, rest) := by
  have digits : hexNumber? [hexDigit (n / 4096), hexDigit (n / 256), hexDigit (n / 16), hexDigit n] =
      some n := by
    simp only [hexNumber?, List.foldl_cons, List.foldl_nil, hexValue?_hexDigit, bind, Option.bind, pure]
    congr 1
    omega
  rw [toList_hexText_four]
  simp [takeHex4?, digits]

theorem not_surrogate (c : Char) : ¬ (0xd800 ≤ c.toNat ∧ c.toNat < 0xe000) := by
  have valid := c.valid
  simp only [UInt32.isValidChar, Nat.isValidChar] at valid
  unfold Char.toNat
  omega

theorem readUnicode?_single {c : Char} (small : c.toNat < 0x10000) (rest : List Char) :
    readUnicode? ((hexText 4 c.toNat).toList ++ rest) = some (c, rest) := by
  have single : (if (decide (0xd800 ≤ c.toNat) && decide (c.toNat < 0xe000)) = true then Char.ofNat 0xfffd
      else Char.ofNat c.toNat) = c := by
    rw [if_neg (by simpa using not_surrogate c), Char.ofNat_toNat]
  have unpaired : (decide (0xd800 ≤ c.toNat) && decide (c.toNat < 0xdc00)) = false := by
    have whole := not_surrogate c
    simp only [Bool.and_eq_false_iff, decide_eq_false_iff_not]
    omega
  unfold readUnicode?
  rw [takeHex4?_hexText small]
  simp only [bind, Option.bind, single, unpaired, Bool.false_and, Bool.false_eq_true, if_false]
  split
  · split <;> rfl
  · rfl

theorem readUnicode?_halves {high low : Nat} (first : 0xd800 ≤ high ∧ high < 0xdc00)
    (second : 0xdc00 ≤ low ∧ low < 0xe000) (rest : List Char) :
    readUnicode? ((hexText 4 high).toList ++ '\\' :: 'u' :: ((hexText 4 low).toList ++ rest)) =
      some (Char.ofNat (0x10000 + (high - 0xd800) * 0x400 + (low - 0xdc00)), rest) := by
  have paired : (decide (0xd800 ≤ high) && decide (high < 0xdc00) && decide (0xdc00 ≤ low) &&
      decide (low < 0xe000)) = true := by
    simp only [Bool.and_eq_true, decide_eq_true_eq]
    exact ⟨⟨first, second.1⟩, second.2⟩
  unfold readUnicode?
  rw [takeHex4?_hexText (by omega)]
  simp only [bind, Option.bind]
  rw [takeHex4?_hexText (by omega)]
  simp only [paired, if_true]

theorem unicodeEscape_large {c : Char} (large : 0x10000 ≤ c.toNat) : ∃ high low : Nat,
    (0xd800 ≤ high ∧ high < 0xdc00) ∧ (0xdc00 ≤ low ∧ low < 0xe000) ∧
      0x10000 + (high - 0xd800) * 0x400 + (low - 0xdc00) = c.toNat ∧
        unicodeEscape c.toNat = "\\u" ++ hexText 4 high ++ "\\u" ++ hexText 4 low := by
  have valid := c.valid
  simp only [UInt32.isValidChar, Nat.isValidChar] at valid
  have bound : c.toNat < 0x110000 := by
    unfold Char.toNat
    omega
  refine ⟨0xd800 + (c.toNat - 0x10000) / 0x400, 0xdc00 + (c.toNat - 0x10000) % 0x400, ?_, ?_, ?_, ?_⟩
  · omega
  · omega
  · omega
  · unfold unicodeEscape
    rw [if_neg (by omega)]

theorem readQuoted?_escapeChar (fuel : Nat) (done : List Char) (c : Char) (rest : List Char) :
    readQuoted? (fuel + 1) done ((escapeChar c).toList ++ rest) = readQuoted? fuel (c :: done) rest := by
  unfold escapeChar
  split
  · simp_all [readQuoted?, escaped?]
  split
  · simp_all [readQuoted?, escaped?]
  split
  · simp_all [readQuoted?, escaped?]
  split
  · simp_all [readQuoted?, escaped?]
  split
  · simp_all [readQuoted?, escaped?]
  split
  · rename_i backspace
    have code : c = Char.ofNat 8 := by rw [← beq_iff_eq.1 backspace, Char.ofNat_toNat]
    simp [readQuoted?, escaped?, code]
  split
  · rename_i feed
    have code : c = Char.ofNat 12 := by rw [← beq_iff_eq.1 feed, Char.ofNat_toNat]
    simp [readQuoted?, escaped?, code]
  split
  · rename_i quote backslash _ _ _ _ _ printable
    have plain : ¬ c.toNat < 32 := by
      have least := (Bool.and_eq_true _ _ ▸ printable).1
      simp only [decide_eq_true_eq] at least
      exact Nat.not_lt.2 least
    rw [show c.toString.toList = [c] by simp [Char.toString]]
    simp only [List.cons_append, List.nil_append]
    rw [readQuoted?.eq_def]
    split
    · simp_all
    · split
      · simp_all
      · simp_all
      · simp_all
      · simp_all
      · rename_i same
        obtain ⟨rfl, rfl⟩ := List.cons.inj same
        rw [if_neg plain]
        simp_all
  · by_cases small : c.toNat < 0x10000
    · unfold unicodeEscape
      rw [if_pos small]
      simp [readQuoted?, readUnicode?_single small]
    · obtain ⟨high, low, first, second, whole, escape⟩ := unicodeEscape_large (Nat.le_of_not_lt small)
      have read := readUnicode?_halves first second rest
      rw [whole, Char.ofNat_toNat] at read
      rw [escape]
      simp [readQuoted?, read]

theorem readQuoted?_text (cs done : List Char) (fuel : Nat) (enough : cs.length < fuel) (rest : List Char) :
    readQuoted? fuel done (cs.flatMap (fun c => (escapeChar c).toList) ++ '"' :: rest) =
      some (String.ofList (done.reverse ++ cs), rest) := by
  induction cs generalizing fuel done with
  | nil =>
    obtain ⟨fuel, rfl⟩ : ∃ n, fuel = n + 1 := ⟨fuel - 1, by simp at enough; omega⟩
    simp [readQuoted?]
  | cons c cs ih =>
    obtain ⟨fuel, rfl⟩ : ∃ n, fuel = n + 1 := ⟨fuel - 1, by simp at enough; omega⟩
    rw [List.flatMap_cons, List.append_assoc, readQuoted?_escapeChar, ih]
    · simp
    · simpa using enough

theorem escapeChar_ne_nil (c : Char) : (escapeChar c).toList ≠ [] := by
  intro none
  have step := readQuoted?_escapeChar 0 [] c ['"']
  rw [none] at step
  simp [readQuoted?] at step

theorem length_le_flatMap_escapeChar (cs : List Char) :
    cs.length ≤ (cs.flatMap fun c => (escapeChar c).toList).length := by
  induction cs with
  | nil => simp
  | cons c cs ih =>
    have some := List.length_pos_iff.2 (escapeChar_ne_nil c)
    rw [List.flatMap_cons, List.length_append, List.length_cons]
    omega

theorem toList_quoted (s : String) :
    (quoted s).toList = '"' :: (s.toList.flatMap fun c => (escapeChar c).toList) ++ ['"'] := by
  simp [quoted, List.flatMap, Function.comp_def]

end VaultSchema.Json
