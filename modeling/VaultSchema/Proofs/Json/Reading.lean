import VaultSchema.Json.Reading
import VaultSchema.Proofs.Json.Plain

set_option autoImplicit false

namespace VaultSchema

open Value (Plain)

namespace Entries

structure Legible (m : Entries) : Prop where
  texts : ∀ e ∈ m, ∃ key, e.1 = .text key
  distinct : (m.map Prod.fst).Nodup
  plain : ∀ e ∈ m, e.2.Plain

theorem Legible.mapping {m : Entries} (h : Legible m) : (Value.mapping m).Plain :=
  .mapping m h.texts h.distinct h.plain

theorem keys_insert {m : Entries} (texts : ∀ e ∈ m, ∃ key, e.1 = .text key) (key : String) (v : Value) :
    (insert (.text key) v m).map Prod.fst =
      if .text key ∈ m.map Prod.fst then m.map Prod.fst else m.map Prod.fst ++ [.text key] := by
  induction m with
  | nil => rfl
  | cons e m ih =>
    obtain ⟨first, same⟩ := texts e (by simp)
    have rest := ih fun d mem => texts d (by simp [mem])
    unfold insert
    rw [same, Scalar.sameKey_text]
    by_cases here : first = key
    · simp [here, same]
    · have apart : ¬ key = first := fun back => here back.symm
      rw [if_neg (by simpa using here), List.map_cons, rest, List.map_cons, same]
      simp only [List.mem_cons, Scalar.text.injEq, apart, false_or]
      split <;> rfl

theorem mem_insert {key : Scalar} {v : Value} {m : Entries} {e : Scalar × Value} (mem : e ∈ insert key v m) :
    e ∈ m ∨ e.2 = v ∧ (e.1 = key ∨ ∃ d ∈ m, e.1 = d.1) := by
  induction m with
  | nil =>
    obtain rfl := List.mem_singleton.1 mem
    exact Or.inr ⟨rfl, Or.inl rfl⟩
  | cons d m ih =>
    unfold insert at mem
    split at mem
    · rcases List.mem_cons.1 mem with rfl | mem
      · exact Or.inr ⟨rfl, Or.inr ⟨d, by simp, rfl⟩⟩
      · exact Or.inl (by simp [mem])
    · rcases List.mem_cons.1 mem with rfl | mem
      · exact Or.inl (by simp)
      · rcases ih mem with old | ⟨new, key | ⟨c, inside, key⟩⟩
        · exact Or.inl (by simp [old])
        · exact Or.inr ⟨new, Or.inl key⟩
        · exact Or.inr ⟨new, Or.inr ⟨c, by simp [inside], key⟩⟩

theorem Legible.insert {m : Entries} (h : Legible m) (key : String) {v : Value} (plain : v.Plain) :
    Legible (Entries.insert (.text key) v m) := by
  refine ⟨fun e mem => ?_, ?_, fun e mem => ?_⟩
  · rcases mem_insert mem with old | ⟨_, new | ⟨d, inside, same⟩⟩
    · exact h.texts e old
    · exact ⟨key, new⟩
    · exact same ▸ h.texts d inside
  · rw [keys_insert h.texts]
    split
    · exact h.distinct
    · rename_i new
      exact List.nodup_append.2 ⟨h.distinct, by simp, fun a there b last => by
        rw [List.mem_singleton.1 last]
        exact fun same => new (same ▸ there)⟩
  · rcases mem_insert mem with old | ⟨new, _⟩
    · exact h.plain e old
    · exact new ▸ plain

theorem legible_ofList {pairs : Entries} (each : ∀ e ∈ pairs, (∃ key, e.1 = .text key) ∧ e.2.Plain) :
    Legible (ofList pairs) := by
  refine List.foldlRecOn (motive := Legible) pairs _ ⟨by simp, List.nodup_nil, by simp⟩ fun m h e mem => ?_
  obtain ⟨⟨key, same⟩, plain⟩ := each e mem
  rw [same]
  exact h.insert key plain

end Entries

namespace Json

open Decimal

theorem digits_of_takeWhole? {cs whole rest : List Char} (taken : takeWhole? cs = some (whole, rest)) :
    whole ≠ [] ∧ ∀ c ∈ whole, isDigit c = true := by
  unfold takeWhole? at taken
  split at taken
  · cases taken
    simp [isDigit]
  · dsimp only at taken
    split at taken
    · cases taken
    · rename_i some
      cases taken
      exact ⟨fun none => some (List.isEmpty_iff.2 none), fun c mem => List.mem_takeWhile_imp mem⟩

theorem plain_readNumber? {cs rest : List Char} {v : Value} (read : readNumber? cs = some (v, rest)) : v.Plain := by
  unfold readNumber? at read
  dsimp only at read
  obtain ⟨⟨whole, after⟩, taken, read⟩ := Option.bind_eq_some_iff.1 read
  obtain ⟨some, digits⟩ := digits_of_takeWhole? taken
  dsimp only at read
  split at read
  · split at read
    · cases read
    · rename_i _ short
      cases read
      refine .int _ (Nat.le_trans ?_ (Nat.not_lt.1 short))
      have same : ∀ (negative : Bool) (n : Nat), (if negative then -(n : Int) else n).natAbs = n := by
        intro negative n
        cases negative <;> simp
      rw [same]
      exact length_toString_ofDigits digits some
  · obtain ⟨s, _, read⟩ := Option.bind_eq_some_iff.1 read
    cases read
    exact .float _ (held_nearest _ s)

theorem plain_readWord? {cs rest : List Char} {v : Value} (read : readWord? cs = some (v, rest)) : v.Plain := by
  obtain ⟨⟨word, value⟩, mem, found⟩ := List.exists_of_findSome?_eq_some read
  dsimp only at found
  split at found
  · cases found
    simp only [words, List.mem_cons, Prod.mk.injEq, List.not_mem_nil, or_false] at mem
    obtain ⟨_, rfl⟩ | ⟨_, rfl⟩ | ⟨_, rfl⟩ | ⟨_, rfl⟩ | ⟨_, rfl⟩ | ⟨_, rfl⟩ := mem
    · exact .null
    · exact .bool true
    · exact .bool false
    · exact .float _ .nan
    · exact .float _ (.infinite false)
    · exact .float _ (.infinite true)
  · cases found

/-- What the readers of values, of the members of lists and of those of mappings find with some fuel. -/
structure ReadsPlain (fuel : Nat) : Prop where
  value : ∀ {cs v rest}, readValue? fuel cs = some (v, rest) → v.Plain
  items : ∀ {cs items rest}, readItems? fuel cs = some (items, rest) → ∀ v ∈ items, v.Plain
  members : ∀ {cs entries rest}, readMembers? fuel cs = some (entries, rest) →
    ∀ e ∈ entries, (∃ key, e.1 = .text key) ∧ e.2.Plain

section step

variable {fuel : Nat} {cs rest : List Char}

theorem ReadsPlain.readValue? (h : ReadsPlain fuel) {v : Value}
    (read : Json.readValue? (fuel + 1) cs = some (v, rest)) : v.Plain := by
  rw [readValue?.eq_def] at read
  dsimp only at read
  split at read
  · obtain ⟨⟨s, more⟩, _, read⟩ := Option.bind_eq_some_iff.1 read
    cases read
    exact .text s
  · split at read
    · cases read
      exact .list [] (by simp)
    · obtain ⟨⟨vs, more⟩, inner, read⟩ := Option.bind_eq_some_iff.1 read
      cases read
      exact .list vs (h.items inner)
  · split at read
    · cases read
      exact .mapping [] (by simp) (by simp) (by simp)
    · obtain ⟨⟨es, more⟩, inner, read⟩ := Option.bind_eq_some_iff.1 read
      cases read
      exact (Entries.legible_ofList (h.members inner)).mapping
  · rcases Option.or_eq_some_iff.1 read with word | ⟨_, number⟩
    · exact plain_readWord? word
    · exact plain_readNumber? number

theorem ReadsPlain.readItems? (h : ReadsPlain fuel) {items : List Value}
    (read : Json.readItems? (fuel + 1) cs = some (items, rest)) : ∀ v ∈ items, v.Plain := by
  rw [readItems?.eq_def] at read
  obtain ⟨⟨v, more⟩, first, read⟩ := Option.bind_eq_some_iff.1 read
  have plain := h.value first
  dsimp only at read
  split at read
  · obtain ⟨⟨others, _⟩, inner, read⟩ := Option.bind_eq_some_iff.1 read
    cases read
    exact List.forall_mem_cons.2 ⟨plain, h.items inner⟩
  · cases read
    simpa using plain
  · cases read

theorem ReadsPlain.readMembers? (h : ReadsPlain fuel) {entries : Entries}
    (read : Json.readMembers? (fuel + 1) cs = some (entries, rest)) :
    ∀ e ∈ entries, (∃ key, e.1 = .text key) ∧ e.2.Plain := by
  rw [readMembers?.eq_def] at read
  dsimp only at read
  split at read
  · obtain ⟨⟨key, more⟩, _, read⟩ := Option.bind_eq_some_iff.1 read
    dsimp only at read
    split at read
    · obtain ⟨⟨v, more⟩, first, read⟩ := Option.bind_eq_some_iff.1 read
      have entry : (∃ name, Scalar.text key = .text name) ∧ v.Plain := ⟨⟨key, rfl⟩, h.value first⟩
      dsimp only at read
      split at read
      · obtain ⟨⟨others, _⟩, inner, read⟩ := Option.bind_eq_some_iff.1 read
        cases read
        exact List.forall_mem_cons.2 ⟨entry, h.members inner⟩
      · cases read
        simpa using entry.2
      · cases read
    · cases read
  · cases read

end step

theorem readsPlain (fuel : Nat) : ReadsPlain fuel := by
  induction fuel with
  | zero =>
    refine ⟨fun read => ?_, fun read => ?_, fun read => ?_⟩
    · rw [readValue?] at read
      cases read
    · rw [readItems?] at read
      cases read
    · rw [readMembers?] at read
      cases read
  | succ fuel ih => exact ⟨ih.readValue?, ih.readItems?, ih.readMembers?⟩

theorem plain_read? {text : String} {v : Value} (read : read? text = some v) : v.Plain := by
  unfold read? at read
  dsimp only at read
  split at read
  · cases read
  · split at read
    · rename_i w rest whole
      split at read
      · cases read
        exact (readsPlain _).value whole
      · cases read
    · cases read

end Json
end VaultSchema
