import VaultSchema.Proofs.Calendar.Instants

set_option autoImplicit false

namespace VaultSchema

open Decimal

theorem Text.padded_digits (width n : Nat) (some : 0 < width) (small : n < 10 ^ width) :
    ∃ cs, padded width n = String.ofList cs ∧ cs.length = width ∧ (∀ c ∈ cs, isDigit c = true) ∧ ofDigits cs = n := by
  have fits : (toString n).length ≤ width := by
    rw [Nat.toString_eq_repr]
    exact (Nat.length_repr_le_iff some).2 small
  refine ⟨List.replicate (width - (toString n).length) '0' ++ (toString n).toList, ?_, ?_, ?_, ?_⟩
  · rw [padded, String.ofList_append, String.ofList_toList]
  · rw [List.length_append, List.length_replicate, String.length_toList]
    omega
  · intro c mem
    rcases List.mem_append.1 mem with zeros | digits
    · exact isDigit_zeros zeros
    · exact isDigit_of_mem_toString digits
  · rw [ofDigits_append, ofDigits_zeros, ofDigits_toString]
    omega

namespace Calendar

theorem takeNumber?_digits (cs : List Char) (digits : ∀ c ∈ cs, isDigit c = true) (rest : List Char) :
    takeNumber? cs.length (cs ++ rest) = some (ofDigits cs, rest) := by
  unfold takeNumber?
  rw [List.take_left, List.drop_left, if_pos (by simpa using digits)]

theorem isDecimalDigit_of_isDigit {c : Char} (digit : isDigit c = true) : Text.isDecimalDigit c = true :=
  Decimal.of_isDigit (P := (Text.isDecimalDigit · = true)) (by decide) digit

theorem isDigit_apart {c : Char} (digit : isDigit c = true) : Text.isBlank c = false ∧ c ≠ 'Z' ∧ c ≠ 'W' :=
  Text.isDecimalDigit_apart (isDecimalDigit_of_isDigit digit)

theorem readDate?_digits {ys ms ds : List Char} (year : ys.length = 4) (month : ms.length = 2) (day : ds.length = 2)
    (digits : ∀ c ∈ ys ++ ms ++ ds, isDigit c = true) :
    readDate? (ys ++ '-' :: (ms ++ '-' :: ds)) 10 = Date.ofFields? (ofDigits ys) (ofDigits ms) (ofDigits ds) := by
  have years := takeNumber?_digits ys (fun c mem => digits c (by simp [mem])) ('-' :: (ms ++ '-' :: ds))
  have months := takeNumber?_digits ms (fun c mem => digits c (by simp [mem])) ('-' :: ds)
  have days := takeNumber?_digits ds (fun c mem => digits c (by simp [mem])) []
  rw [year] at years
  rw [month] at months
  rw [day, List.append_nil] at days
  have mark (cs : List Char) : charAt ('-' :: cs) 0 = '-' := rfl
  -- The month begins with a digit, so that no week is read.
  have noWeek : charAt (ms ++ '-' :: ds) 0 ≠ 'W' := by
    obtain ⟨m₁, m₂, rfl⟩ := List.length_eq_two.1 month
    have digit := digits m₁ (by simp)
    simpa [charAt] using (isDigit_apart digit).2.2
  simp [readDate?, years, months, days, mark, noWeek]

end Calendar

theorem Date.exists_text (d : Date) : ∃ ys ms ds : List Char,
    d.text = String.ofList (ys ++ '-' :: (ms ++ '-' :: ds)) ∧ ys.length = 4 ∧ ms.length = 2 ∧ ds.length = 2 ∧
      (∀ c ∈ ys ++ ms ++ ds, isDigit c = true) ∧ Date.ofFields? (ofDigits ys) (ofDigits ms) (ofDigits ds) = some d := by
  obtain ⟨year, month, day, valid⟩ := d
  have bounds := valid
  simp only [Calendar.isDate, Bool.and_eq_true, decide_eq_true_eq] at bounds
  have short : Calendar.daysInMonth year month ≤ 31 := by
    unfold Calendar.daysInMonth
    split
    · split <;> omega
    all_goals omega
  obtain ⟨ys, yearText, yearWidth, years, rfl⟩ := Text.padded_digits 4 year (by decide) (by omega)
  obtain ⟨ms, monthText, monthWidth, months, rfl⟩ := Text.padded_digits 2 month (by decide) (by omega)
  obtain ⟨ds, dayText, dayWidth, days, rfl⟩ := Text.padded_digits 2 day (by decide) (by omega)
  refine ⟨ys, ms, ds, ?_, yearWidth, monthWidth, dayWidth, ?_, ?_⟩
  · rw [text, yearText, monthText, dayText, ← String.toList_inj]
    simp
  · intro c mem
    simp only [List.mem_append] at mem
    rcases mem with (mem | mem) | mem
    · exact years c mem
    · exact months c mem
    · exact days c mem
  · rw [ofFields?, dif_pos valid]

theorem Date.text_plain (d : Date) : ∀ c ∈ d.text.toList, Text.isBlank c = false ∧ c ≠ 'Z' ∧ c.toNat < 128 := by
  obtain ⟨ys, ms, ds, text, -, -, -, digits, -⟩ := d.exists_text
  rw [text, String.toList_ofList]
  intro c mem
  by_cases hyphen : c = '-'
  · subst hyphen
    decide
  · have digit := digits c (by grind)
    obtain ⟨solid, noZulu, -⟩ := Calendar.isDigit_apart digit
    exact ⟨solid, noZulu, Calendar.ascii_of_isDigit digit⟩

theorem Date.trim_text (d : Date) : Text.trim d.text = d.text := by
  rw [← String.toList_inj, Text.toList_trim]
  refine Text.trimList_eq_self ⟨fun c first => ?_, fun c last => ?_⟩
  · exact (d.text_plain c (List.mem_of_mem_head? first)).1
  · exact (d.text_plain c (List.mem_of_mem_getLast? last)).1

theorem Value.momentOfText?_text (d : Date) : momentOfText? d.text = some (Moment.startOf d) := by
  have noZulu : expandZulu d.text = d.text := by
    rw [expandZulu, flatMap_eq_self fun c mem => ?_, String.ofList_toList]
    simp [(d.text_plain c mem).2.1]
  have plain := d.text_plain
  obtain ⟨ys, ms, ds, text, year, month, day, digits, fields⟩ := d.exists_text
  rw [text, String.toList_ofList] at plain
  have read : Calendar.readDate? (ys ++ '-' :: (ms ++ '-' :: ds)) 10 = some d := by
    rw [Calendar.readDate?_digits year month day digits, fields]
  have length : (ys ++ '-' :: (ms ++ '-' :: ds)).length = 10 := by simp [year, month, day]
  have size : Calendar.dateLength (ys ++ '-' :: (ms ++ '-' :: ds)) = 10 := by
    have mark : Calendar.charAt (ys ++ '-' :: (ms ++ '-' :: ds)) 4 = '-' := by
      rw [Calendar.charAt, List.getD_append_right _ _ _ _ year.le, year]
      rfl
    have noWeek : Calendar.charAt (ys ++ '-' :: (ms ++ '-' :: ds)) 5 ≠ 'W' := by
      obtain ⟨m₁, m₂, rfl⟩ := List.length_eq_two.1 month
      have own : Calendar.charAt (ys ++ '-' :: ([m₁, m₂] ++ '-' :: ds)) 5 = m₁ := by
        rw [Calendar.charAt, List.getD_append_right _ _ _ _ (by omega), year]
        rfl
      rw [own]
      exact (Calendar.isDigit_apart (digits m₁ (by simp))).2.2
    simp [Calendar.dateLength, length, mark, noWeek]
  rw [momentOfText?, d.trim_text, noZulu, text, Calendar.readMoment?, Calendar.byteChars_ofList,
    flatMap_eq_self fun c mem => Calendar.bytesOf_ascii (plain c mem).2.2]
  simp [size, read, List.drop_eq_nil_of_le length.le]

end VaultSchema
