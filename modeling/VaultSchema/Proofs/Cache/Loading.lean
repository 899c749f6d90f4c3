import VaultSchema.Proofs.Cache.Decoding
import VaultSchema.Proofs.Cache.Stored
import VaultSchema.Proofs.Json.Reading

/-! A cache that was read can be written. Its keys are those of mappings of JSON, so they differ;
its times of change were made from numbers, truth values or texts, which gives doubles that exist;
and the parts of its violations are values that were read. -/

set_option autoImplicit false

namespace VaultSchema

namespace Binary64

theorem held_twoPow {k : Nat} (normal : 52 ≤ k) (small : k < 1024 + unitBits) : (finite false (2 ^ k)).Held := by
  obtain ⟨s, rfl⟩ : ∃ s, k = 52 + s := ⟨k - 52, by omega⟩
  refine .finite false ?_ ?_
  · have spare : spareBits (2 ^ (52 + s)) = s :=
      spareBits_eq (Nat.le_refl _) (Nat.pow_lt_pow_right (by decide) (by omega))
    unfold Representable
    rw [spare]
    exact Nat.pow_dvd_pow 2 (Nat.le_add_left s 52)
  · rw [Decimal.overflowUnits_eq]
    exact Nat.pow_lt_pow_right (by decide) small

theorem held_one : one.Held := by
  have one_eq : one = finite false (2 ^ unitBits) := congrArg (finite false) Decimal.unit_eq
  rw [one_eq]
  exact held_twoPow (by decide) (by omega)

end Binary64

theorem Decimal.held_readLoose? {s : String} {x : Binary64} (read : readLoose? s = some x) : x.Held := by
  unfold readLoose? at read
  dsimp only at read
  split at read
  · cases read
    exact .infinite _
  · split at read
    · cases read
      exact .nan
    · obtain ⟨body, _, read⟩ := Option.bind_eq_some_iff.1 read
      obtain ⟨s, _, rfl⟩ := Option.map_eq_some_iff.1 read
      exact held_nearest _ s

open Value (Plain)

theorem Entries.plain_of_get? {m : Entries} {key : String} {v : Value} (plain : (Value.mapping m).Plain)
    (found : m.get? key = some v) : v.Plain := by
  obtain ⟨e, first, rfl⟩ := Option.map_eq_some_iff.1 found
  cases plain with
  | mapping _ _ _ each => exact each e (List.mem_of_find?_eq_some first)

variable {m : Entries}

theorem StoredViolation.ToldBy.plain {v : StoredViolation} (told : v.ToldBy m) (plain : (Value.mapping m).Plain) :
    v.Plain := by
  have optional : ∀ key : String, ((Entries.get? key m).getD .null).Plain := by
    intro key
    cases there : Entries.get? key m with
    | none => exact .null
    | some w => exact Entries.plain_of_get? plain there
  exact ⟨Entries.plain_of_get? plain told.document, Entries.plain_of_get? plain told.schema,
    Entries.plain_of_get? plain told.field, Entries.plain_of_get? plain told.message,
    told.expected ▸ optional _, told.actual ▸ optional _⟩

namespace CachedNote

theorem Dates.held {v : Value} {x : Binary64} (dates : Dates v x) (plain : v.Plain) : x.Held := by
  cases dates with
  | float x =>
    cases plain with
    | float _ held => exact held
  | bool b =>
    cases b with
    | true => exact Binary64.held_one
    | false => exact Binary64.held_zero false
  | int nearest => exact Binary64.held_ofInt? nearest
  | text reads => exact Decimal.held_readLoose? reads

theorem Members.plain {v : Value} {items : List Value} (members : Members v items) (plain : v.Plain) :
    ∀ x ∈ items, Value.Plain x := by
  cases members with
  | sequence kind items =>
    cases plain with
    | list _ each => exact each
  | text s =>
    intro x mem
    obtain ⟨c, _, rfl⟩ := List.mem_map.1 mem
    exact .text _
  | mapping n =>
    cases plain with
    | mapping _ texts _ _ =>
      intro x mem
      obtain ⟨e, inside, rfl⟩ := List.mem_map.1 mem
      obtain ⟨key, same⟩ := texts e inside
      exact same ▸ .text key

theorem plain_getD (plain : (Value.mapping m).Plain) (key : String) :
    ((Entries.get? key m).getD (.list [])).Plain := by
  cases there : Entries.get? key m with
  | none => exact .list [] (by simp)
  | some w => exact Entries.plain_of_get? plain there

theorem ToldBy.plain {e : CachedNote} (told : e.ToldBy m) (plain : (Value.mapping m).Plain) : e.Plain := by
  obtain ⟨w, found, dates⟩ := told.time
  obtain ⟨items, members, violations⟩ := told.violations
  refine ⟨dates.held (Entries.plain_of_get? plain found), fun v mem => ?_⟩
  obtain ⟨x, inside, n, rfl, told⟩ := Outcome.partner_left violations mem
  exact told.plain (members.plain (plain_getD plain _) _ inside)

end CachedNote

theorem Entries.Section.plain {key : String} {rows : Entries} (part : Entries.Section key m rows)
    (plain : (Value.mapping m).Plain) : (Value.mapping rows).Plain := by
  rcases part with there | ⟨_, rfl⟩
  · exact Entries.plain_of_get? plain there
  · exact .mapping [] (by simp) (by simp) (by simp)

namespace Cache

theorem rows_told {α : Type} (told : Value → α → Prop) {rows : List (String × α)} (plain : (Value.mapping m).Plain)
    (pairs : List.Forall₂ (fun e r => e.1.spelling = .ok r.1 ∧ told e.2 r.2) m rows) :
    (rows.map Prod.fst).Nodup ∧ ∀ r ∈ rows, ∃ v : Value, v.Plain ∧ told v r.2 := by
  cases plain with
  | mapping _ texts distinct each =>
    refine ⟨?_, fun r mem => ?_⟩
    · have keys : m.map Prod.fst = (rows.map Prod.fst).map Scalar.text := by
        clear distinct each
        induction pairs with
        | nil => rfl
        | @cons e r m rows first _ ih =>
          obtain ⟨key, same⟩ := texts e (by simp)
          have name : key = r.1 := by
            rw [same] at first
            exact Except.ok.inj first.1
          rw [List.map_cons, List.map_cons, List.map_cons, ih fun d mem => texts d (by simp [mem]), same, name]
      rw [keys] at distinct
      exact distinct.of_map _
    · obtain ⟨e, inside, _, value⟩ := Outcome.partner_left pairs mem
      exact ⟨e.2, each e inside, value⟩

theorem takeOver_writable {c y : Cache} {v : Value} (plain : v.Plain) (taken : c.takeOver v = .ok y) :
    y.Writable := by
  obtain ⟨m, made, hashes, notes, rfl, told, rfl⟩ := takeOver_eq_ok.1 taken
  obtain ⟨first, documents, entries⟩ := told.notes
  obtain ⟨second, fingerprints, values⟩ := told.hashes
  obtain ⟨distinct, each⟩ := rows_told (fun v e => ∃ n, v = .mapping n ∧ CachedNote.ToldBy e n) (documents.plain plain) entries
  refine ⟨distinct, (rows_told (fun v name => v.spelling = .ok name) (fingerprints.plain plain) values).1,
    fun r mem => ?_⟩
  obtain ⟨_, kept, n, rfl, told⟩ := each r mem
  exact told.plain kept

end Cache
end VaultSchema
