import VaultSchema.Proofs.Calendar.Days
import VaultSchema.Proofs.Number.Bounds
import VaultSchema.Proofs.Text.Trim
import VaultSchema.Schema.FieldType
import VaultSchema.Value.Conversion

/-! Instants in the years of the calendar, which have a date in universal time although they are
kept as doubles, and texts that are shaped like dates, which denote the start of a day if they
denote anything. -/

set_option autoImplicit false

namespace VaultSchema

namespace Moment

open Binary64

def firstMicros : Int := -62135596800000000

def lastMicros : Int := 253402300799999984

def InYears (m : Moment) : Prop := firstMicros ≤ m.toMicros ∧ m.toMicros ≤ lastMicros

instance (m : Moment) : Decidable m.InYears := inferInstanceAs (Decidable (_ ∧ _))

/-- Microseconds that are kept as seconds and counted again have not passed a limit, if they are
nearer to a double below it than to the next one, and that double rounds to no more. -/
theorem micros_back {n most units limit : Nat} (few : n ≤ most) (double : Representable units)
    (finite : units < overflowUnits) (near : 2 * (most * unit) < (2 * units + 2 ^ spareBits units) * microsPerSecond)
    (back : 2 * (units * microsPerSecond) < (2 * limit + 1) * unit) (negative : Bool) :
    ∃ k ≤ limit,
      (ofRatio negative n microsPerSecond).roundToParts? microsPerSecond = some (signedUnits negative k) := by
  have small := roundUnits_le double ((Nat.mul_le_mul_left 2 (Nat.mul_le_mul_right _ few)).trans_lt near)
  refine ⟨_, roundHalfEven_le ((Nat.mul_le_mul_left 2 (Nat.mul_le_mul_right _ small)).trans_lt back), ?_⟩
  rw [ofRatio, if_neg (by omega)]
  rfl

/-- The end of the year 0, in units. -/
def earliestUnits : Nat := 62135596800 * unit

/-- The greatest double before the end of the year 9999, in units. -/
def latestUnits : Nat := (253402300800 * 2 ^ 15 - 1) * 2 ^ (unitBits - 15)

theorem micros_back_early {n : Nat} (few : n ≤ 62135596800000000) (negative : Bool) :
    ∃ k ≤ 62135596800000000,
      (ofRatio negative n microsPerSecond).roundToParts? microsPerSecond = some (signedUnits negative k) := by
  have double : Representable earliestUnits := Nat.dvd_of_mod_eq_zero (by decide +kernel)
  exact micros_back few double (by decide +kernel) (by decide +kernel) (by decide +kernel) negative

theorem micros_back_late {n : Nat} (few : n ≤ 253402300799999984) (negative : Bool) :
    ∃ k ≤ 253402300799999999,
      (ofRatio negative n microsPerSecond).roundToParts? microsPerSecond = some (signedUnits negative k) := by
  have double : Representable latestUnits := Nat.dvd_of_mod_eq_zero (by decide +kernel)
  exact micros_back few double (by decide +kernel) (by decide +kernel) (by decide +kernel) negative

theorem exists_dateOfTimestamp? {m : Moment} (inYears : m.InYears) : ∃ d, dateOfTimestamp? m.timestamp = some d := by
  obtain ⟨low, high⟩ := inYears
  obtain ⟨micros, back, first, last⟩ : ∃ micros, m.timestamp.roundToParts? microsPerSecond = some micros ∧
      -62135596800000000 ≤ micros ∧ micros ≤ 253402300799999999 := by
    simp only [firstMicros, lastMicros] at low high
    unfold timestamp secondsOfMicros
    rcases lt_or_ge m.toMicros 0 with before | since
    · obtain ⟨k, few, back⟩ := micros_back_early (n := m.toMicros.natAbs) (by omega) (m.toMicros < 0)
      refine ⟨_, back, ?_⟩
      simp only [before, decide_true, signedUnits, if_true]
      omega
    · obtain ⟨k, few, back⟩ := micros_back_late (n := m.toMicros.natAbs) (by omega) (m.toMicros < 0)
      refine ⟨_, back, ?_⟩
      simp only [Int.not_lt.2 since, decide_false, signedUnits, Bool.false_eq_true, if_false]
      omega
  rw [dateOfTimestamp?, back, Option.bind_some]
  have days := Int.mul_fdiv_add_fmod micros microsPerDay
  have rest := Int.fmod_nonneg_of_pos micros (show (0 : Int) < microsPerDay by decide)
  have part := Int.fmod_lt_of_pos micros (show (0 : Int) < microsPerDay by decide)
  refine Date.exists_ofDays? ?_ ?_ <;>
    simp only [microsPerDay, microsPerSecond] at days rest part ⊢ <;> omega

theorem startOf_inYears (d : Date) : (startOf d).InYears := by
  have bounds := d.toDays_bounds
  simp only [InYears, toMicros, startOf, microsPerDay, microsPerSecond, firstMicros, lastMicros, Option.getD_none]
  omega

end Moment

theorem Text.isDecimalDigit_apart {c : Char} (digit : isDecimalDigit c = true) :
    isBlank c = false ∧ c ≠ 'Z' ∧ c ≠ 'W' := by
  have apart : ∀ z ∈ zeroCodes, ∀ k < 10,
      blankCodes.contains (z + k) = false ∧ z + k ≠ 'Z'.toNat ∧ z + k ≠ 'W'.toNat := by decide +kernel
  obtain ⟨value, found⟩ := Option.isSome_iff_exists.1 digit
  obtain ⟨z, first, _⟩ := Option.map_eq_some_iff.1 found
  have near := List.find?_some first
  simp only [Bool.and_eq_true, decide_eq_true_eq] at near
  obtain ⟨blank, notZ, notW⟩ := apart z (List.mem_of_find?_eq_some first) (c.toNat - z) (by omega)
  rw [Nat.add_sub_of_le near.1] at blank notZ notW
  exact ⟨blank, fun same => notZ (same ▸ rfl), fun same => notW (same ▸ rfl)⟩

namespace Calendar

def bytesOf (c : Char) : List Char := (String.utf8EncodeChar c).map fun b => Char.ofNat b.toNat

theorem toList_loop_eq (bs : ByteArray) (i : Nat) (r : List UInt8) :
    ByteArray.toList.loop bs i r = r.reverse ++ bs.data.toList.drop i := by
  fun_induction ByteArray.toList.loop bs i r with
  | case1 i r inside ih =>
    have front : i < bs.data.toList.length := by simpa using inside
    rw [ih]
    simp [List.drop_eq_getElem_cons front, ByteArray.get!, inside]
  | case2 i r outside => simpa using outside

theorem byteChars_ofList (cs : List Char) : byteChars (String.ofList cs) = cs.flatMap bytesOf := by
  have bytes (bs : ByteArray) : bs.toList = bs.data.toList := by simp [ByteArray.toList, toList_loop_eq]
  simp only [byteChars, String.toUTF8, bytes, String.toByteArray_ofList, List.utf8Encode, List.toList_data_toByteArray,
    List.map_flatMap]
  rfl

theorem bytesOf_eq (c : Char) :
    c.toNat < 128 ∧ bytesOf c = [c] ∨ 128 ≤ c.toNat ∧ ∃ b rest, bytesOf c = b :: rest ∧ 128 ≤ b.toNat := by
  have wide (n k : Nat) (small : n < 256 - k) (large : 128 ≤ k) :
      128 ≤ (Char.ofNat (UInt8.ofNat (n + k)).toNat).toNat := by
    rw [UInt8.toNat_ofNat_of_lt' (by simp [UInt8.size]; omega), Char.toNat_ofNat, if_pos (Or.inl (by omega))]
    omega
  unfold bytesOf String.utf8EncodeChar
  dsimp only
  split
  · rename_i ascii
    have small : c.val.toNat < UInt8.size := Nat.lt_of_le_of_lt ascii (by decide)
    rw [List.map_singleton, UInt8.toNat_ofNat_of_lt' small]
    exact .inl ⟨Nat.lt_succ_of_le ascii, congrArg (fun c => [c]) c.ofNat_toNat⟩
  · rename_i beyond
    refine .inr ⟨Nat.lt_of_not_le beyond, ?_⟩
    split
    · exact ⟨_, _, rfl, wide _ _ (by omega) (by decide)⟩
    · split <;> exact ⟨_, _, rfl, wide _ _ (by omega) (by decide)⟩

theorem bytesOf_ascii {c : Char} (ascii : c.toNat < 128) : bytesOf c = [c] := by
  rcases bytesOf_eq c with ⟨_, same⟩ | ⟨beyond, _⟩
  · exact same
  · omega

theorem ascii_of_isDigit {c : Char} (digit : Decimal.isDigit c = true) : c.toNat < 128 := by
  simp only [Decimal.isDigit, Bool.and_eq_true, decide_eq_true_eq] at digit
  exact Nat.lt_of_le_of_lt (show c.toNat ≤ '9'.toNat from digit.2) (by decide)

variable {cs : List Char}

theorem digits_front {width : Nat} (digits : ∀ b ∈ (cs.flatMap bytesOf).take width, Decimal.isDigit b = true) :
    (∀ c ∈ cs.take width, Decimal.isDigit c = true) ∧
      (cs.flatMap bytesOf).drop width = (cs.drop width).flatMap bytesOf := by
  induction width generalizing cs with
  | zero => simp
  | succ width ih =>
    cases cs with
    | nil => simp
    | cons c cs =>
      rw [List.flatMap_cons] at digits ⊢
      rcases bytesOf_eq c with ⟨_, same⟩ | ⟨_, b, rest, same, wide⟩
      · simp only [same, List.singleton_append, List.take_succ_cons, List.forall_mem_cons] at digits ⊢
        exact ⟨⟨digits.1, (ih digits.2).1⟩, (ih digits.2).2⟩
      · have ascii := ascii_of_isDigit (digits b (by simp [same]))
        omega

theorem takeNumber?_bytes {width n : Nat} {rest : List Char}
    (reads : takeNumber? width (cs.flatMap bytesOf) = some (n, rest)) :
    (∀ c ∈ cs.take width, Decimal.isDigit c = true) ∧ rest = (cs.drop width).flatMap bytesOf := by
  simp only [takeNumber?, Option.ite_none_right_eq_some, Bool.and_eq_true, List.all_eq_true, Option.some.injEq,
    Prod.mk.injEq] at reads
  obtain ⟨⟨_, digits⟩, _, rfl⟩ := reads
  exact digits_front digits

theorem charAt_bytes (c : Char) (cs : List Char) {d : Char} (ascii : d.toNat < 128) :
    charAt ((c :: cs).flatMap bytesOf) 0 = d ↔ c = d := by
  rw [List.flatMap_cons, charAt]
  rcases bytesOf_eq c with ⟨_, same⟩ | ⟨beyond, b, rest, same, wide⟩
  · simp [same]
  · simp only [same, List.cons_append, List.getD_cons_zero]
    constructor <;> rintro rfl <;> omega

/-- Digits with hyphens between them are read as a date only if they are digits of ASCII. -/
theorem ascii_of_readDate? {y₁ y₂ y₃ y₄ m₁ m₂ d₁ d₂ : Char} {size : Nat} {date : Date} (month : m₁ ≠ 'W')
    (reads : readDate? ([y₁, y₂, y₃, y₄, '-', m₁, m₂, '-', d₁, d₂].flatMap bytesOf) size = some date) :
    ∀ c ∈ [y₁, y₂, y₃, y₄, '-', m₁, m₂, '-', d₁, d₂], c.toNat < 128 := by
  obtain ⟨⟨_, rest⟩, year, reads⟩ := Option.bind_eq_some_iff.1 reads
  obtain ⟨years, rfl⟩ := takeNumber?_bytes year
  have hyphen : bytesOf '-' = ['-'] := bytesOf_ascii (by decide)
  have behind (cs : List Char) : ('-' :: cs).flatMap bytesOf = '-' :: cs.flatMap bytesOf := by
    rw [List.flatMap_cons, hyphen]
    rfl
  have noWeek : (charAt ([m₁, m₂, '-', d₁, d₂].flatMap bytesOf) 0 == 'W') = false := by
    rwa [beq_eq_false_iff_ne, Ne, charAt_bytes _ _ (by decide)]
  have mark (cs : List Char) : charAt ('-' :: cs) 0 = '-' := rfl
  simp only [List.drop_succ_cons, List.drop_zero, behind, mark, beq_self_eq_true, if_true, noWeek] at reads
  rw [if_neg (by decide)] at reads
  obtain ⟨⟨_, rest⟩, monthOf, reads⟩ := Option.bind_eq_some_iff.1 reads
  obtain ⟨months, rfl⟩ := takeNumber?_bytes monthOf
  simp only [List.drop_succ_cons, List.drop_zero, behind, mark, bne_self_eq_false, Bool.and_false] at reads
  rw [if_neg (by decide)] at reads
  obtain ⟨_, day, _⟩ := Option.bind_eq_some_iff.1 reads
  obtain ⟨days, _⟩ := takeNumber?_bytes day
  simp only [List.take_succ_cons, List.take_zero, List.forall_mem_cons] at years months days ⊢
  have digit {c : Char} := ascii_of_isDigit (c := c)
  grind

theorem exists_of_isDateText {s : String} (shaped : isDateText s = true) :
    ∃ y₁ y₂ y₃ y₄ m₁ m₂ d₁ d₂, (∀ c ∈ [y₁, y₂, y₃, y₄, m₁, m₂, d₁, d₂], Text.isDecimalDigit c = true) ∧
      Text.trim s = String.ofList [y₁, y₂, y₃, y₄, '-', m₁, m₂, '-', d₁, d₂] := by
  unfold isDateText at shaped
  split at shaped
  · rename_i y₁ y₂ y₃ y₄ m₁ m₂ d₁ d₂ text
    rw [List.all_eq_true] at shaped
    refine ⟨_, _, _, _, _, _, _, _, shaped, ?_⟩
    have first := (Text.isDecimalDigit_apart (shaped y₁ (by simp))).1
    have last := (Text.isDecimalDigit_apart (shaped d₂ (by simp))).1
    rw [Text.trim, Text.trimBy, text, Text.trimList_eq_self (by simp [Text.Trimmed, first, last])]
  · rename_i y₁ y₂ y₃ y₄ m₁ m₂ d₁ d₂ text
    rw [List.all_eq_true] at shaped
    refine ⟨_, _, _, _, _, _, _, _, shaped, ?_⟩
    have first := (Text.isDecimalDigit_apart (shaped y₁ (by simp))).1
    have last := (Text.isDecimalDigit_apart (shaped d₂ (by simp))).1
    have lineEnd : Text.isBlank '\n' = true := by decide
    simp [Text.trim, Text.trimBy, text, Text.trimList, first, last, lineEnd]
  · cases shaped

end Calendar

theorem flatMap_eq_self {f : Char → List Char} {cs : List Char} (each : ∀ c ∈ cs, f c = [c]) : cs.flatMap f = cs :=
  (List.flatMap_congr each).trans (List.flatMap_singleton' cs)

/-- A text that is shaped like a date denotes the start of a day, if it denotes anything. -/
theorem Value.exists_startOf {s : String} (shaped : isDateText s = true) {m : Moment}
    (denotes : momentOfText? s = some m) : ∃ d, m = Moment.startOf d := by
  obtain ⟨y₁, y₂, y₃, y₄, m₁, m₂, d₁, d₂, digits, trimmed⟩ := Calendar.exists_of_isDateText shaped
  have month := (Text.isDecimalDigit_apart (digits m₁ (by simp))).2.2
  have noZulu : ∀ c ∈ [y₁, y₂, y₃, y₄, '-', m₁, m₂, '-', d₁, d₂], c ≠ 'Z' := by
    have apart {c : Char} (digit : Text.isDecimalDigit c = true) := (Text.isDecimalDigit_apart digit).2.1
    grind
  have plain : expandZulu (Text.trim s) = Text.trim s := by
    rw [trimmed, expandZulu, flatMap_eq_self fun c mem => ?_, String.ofList_toList]
    rw [String.toList_ofList] at mem
    simp [noZulu c mem]
  rw [momentOfText?, plain, trimmed, Calendar.readMoment?, Calendar.byteChars_ofList] at denotes
  obtain ⟨date, reads, denotes⟩ := Option.bind_eq_some_iff.1 denotes
  have ascii := Calendar.ascii_of_readDate? month reads
  rw [flatMap_eq_self fun c mem => Calendar.bytesOf_ascii (ascii c mem)] at denotes
  simp [Calendar.dateLength, Calendar.charAt, month] at denotes
  exact ⟨date, denotes.symm⟩

end VaultSchema
