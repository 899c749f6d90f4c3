import VaultSchema.Json.Writing
import VaultSchema.Proofs.Number.Bounds
import VaultSchema.Proofs.Outcome

/-! Values that can be written as JSON, and values that JSON keeps: lists and mappings of null,
truth values, numbers and texts, in which keys are texts and differ. -/

set_option autoImplicit false

namespace VaultSchema

def Scalar.IsKey : Scalar → Prop
  | .int i => Short i
  | .date _ | .moment _ | .bytes _ => False
  | _ => True

namespace Value

/-- A value that can be written as JSON, in whatever order its members are. -/
inductive Writable : Value → Prop where
  | scalar (s : Scalar) (short : ∀ i, s = .int i → Short i) : Writable (.scalar s)
  | sequence (kind : SequenceKind) (items : List Value) (each : ∀ v ∈ items, Writable v) :
    Writable (.sequence kind items)
  | mapping (entries : Entries) (keys : ∀ e ∈ entries, e.1.IsKey) (each : ∀ e ∈ entries, Writable e.2) :
    Writable (.mapping entries)

/-- A value whose mappings have no members, or one, or members that their keys put in order. -/
inductive Sortable : Value → Prop where
  | scalar (s : Scalar) : Sortable (.scalar s)
  | sequence (kind : SequenceKind) (items : List Value) (each : ∀ v ∈ items, Sortable v) :
    Sortable (.sequence kind items)
  | mapping (entries : Entries)
    (order : entries.length ≤ 1 ∨ (∀ e ∈ entries, Json.isTextKey e.1 = true) ∨
      ∀ e ∈ entries, Json.isNumberKey e.1 = true)
    (each : ∀ e ∈ entries, Sortable e.2) : Sortable (.mapping entries)

end Value

/-- A value that JSON keeps. Integers are not too long to be written, and doubles are proper. -/
inductive Value.Plain : Value → Prop where
  | null : Plain .null
  | bool (b : Bool) : Plain (.bool b)
  | int (i : Int) (short : Short i) : Plain (.int i)
  | float (x : Binary64) (held : x.Held) : Plain (.float x)
  | text (s : String) : Plain (.text s)
  | list (items : List Value) (plain : ∀ v ∈ items, Plain v) : Plain (.list items)
  | mapping (entries : Entries) (texts : ∀ e ∈ entries, ∃ key, e.1 = .text key)
      (distinct : (entries.map Prod.fst).Nodup) (plain : ∀ e ∈ entries, Plain e.2) : Plain (.mapping entries)

theorem collect_eq_ok_iff {ε α : Type} {l : List (Except ε α)} {r : List α} :
    collect l = .ok r ↔ List.Forall₂ (fun x a => x = .ok a) l r := by
  induction l generalizing r with
  | nil => simp [collect, eq_comm]
  | cons x l ih =>
    simp only [collect, Outcome.bind_eq_ok, ih, List.forall₂_cons_left_iff]
    constructor
    · rintro ⟨a, first, as, rest, all⟩
      cases all
      exact ⟨a, as, first, rest, rfl⟩
    · rintro ⟨a, as, first, rest, rfl⟩
      exact ⟨a, first, as, rest, rfl⟩

theorem collect_eq_ok_map {ε α : Type} {l : List (Except ε α)} {r : List α} :
    collect l = .ok r ↔ l = r.map .ok := by
  rw [collect_eq_ok_iff, ← List.forall₂_map_right_iff (R := Eq), List.forall₂_eq_eq_eq]

theorem collect_eq_mapM {ε α : Type} (l : List (Except ε α)) : collect l = l.mapM id := by
  induction l with
  | nil => rfl
  | cons x l ih => rw [collect, ih, List.mapM_cons, id]

theorem exists_collect {ε α : Type} {l : List (Except ε α)} (each : ∀ x ∈ l, ∃ a, x = .ok a) :
    ∃ r, collect l = .ok r := by
  rw [collect_eq_mapM]
  exact Outcome.exists_mapM each

namespace Entries

theorem insert_new {key : Scalar} {value : Value} {m : Entries} (new : ∀ e ∈ m, e.1.sameKey key = false) :
    insert key value m = m ++ [(key, value)] := by
  induction m with
  | nil => rfl
  | cons e rest ih =>
    rw [insert, new e (by simp), ih fun d mem => new d (by simp [mem])]
    rfl

theorem foldl_insert_new {rest done : Entries} (texts : ∀ e ∈ done ++ rest, ∃ key, e.1 = .text key)
    (distinct : ((done ++ rest).map Prod.fst).Nodup) :
    rest.foldl (fun m e => insert e.1 e.2 m) done = done ++ rest := by
  induction rest generalizing done with
  | nil => simp
  | cons e rest ih =>
    have new : ∀ d ∈ done, d.1.sameKey e.1 = false := by
      intro d mem
      obtain ⟨s, this⟩ := texts d (by simp [mem])
      obtain ⟨t, that⟩ := texts e (by simp)
      have apart : d.1 ≠ e.1 := by
        rw [List.map_append] at distinct
        exact (List.nodup_append.1 distinct).2.2 _ (List.mem_map.2 ⟨d, mem, rfl⟩) _ (by simp)
      rw [this, that] at apart ⊢
      simpa using apart
    rw [List.foldl_cons, insert_new new, ih (by simpa using texts) (by simpa using distinct)]
    simp

theorem ofList_distinct {pairs : Entries} (texts : ∀ e ∈ pairs, ∃ key, e.1 = .text key)
    (distinct : (pairs.map Prod.fst).Nodup) : ofList pairs = pairs := foldl_insert_new texts distinct

end Entries

namespace Json

theorem writeItems_eq_map (layout : Layout) (depth : Nat) (items : List Value) :
    writeItems layout depth items = items.map (writeAt layout depth) := by
  induction items with
  | nil => rfl
  | cons v rest ih => rw [writeItems, ih, List.map_cons]

theorem writeEntries_eq_map (layout : Layout) (depth : Nat) (entries : Entries) :
    writeEntries layout depth entries = entries.map fun e => (e.1, writeAt layout depth e.2) := by
  induction entries with
  | nil => rfl
  | cons e rest ih => rw [writeEntries, ih, List.map_cons]

theorem writeAt_mapping (layout : Layout) (depth : Nat) (entries : Entries) :
    writeAt layout depth (.mapping entries) =
      (if layout.sortKeys then sortMembers (writeEntries layout (depth + 1) entries) else
        .ok (writeEntries layout (depth + 1) entries)) >>= fun members =>
      collect (members.map (memberText layout)) >>= fun lines =>
      .ok (enclose layout depth "\x7b" "\x7d" lines) := by
  rw [writeAt]
  split <;> rfl

theorem exists_scalarText {s : Scalar} (short : ∀ i, s = .int i → Short i) : ∃ text, scalarText s = .ok text := by
  cases s with
  | int i => exact ⟨_, integerText_ok (short i rfl)⟩
  | _ => exact ⟨_, rfl⟩

theorem exists_keyText {s : Scalar} (key : s.IsKey) : ∃ text, keyText s = .ok text := by
  cases s with
  | int i => exact ⟨_, by rw [keyText, integerText_ok key]; rfl⟩
  | date d | moment m | bytes bs => exact key.elim
  | _ => exact ⟨_, rfl⟩

theorem exists_sortMembers {α : Type} {members : List (Scalar × α)}
    (order : members.length ≤ 1 ∨ (∀ e ∈ members, isTextKey e.1 = true) ∨ ∀ e ∈ members, isNumberKey e.1 = true) :
    ∃ sorted, sortMembers members = .ok sorted ∧ ∀ m ∈ sorted, m ∈ members := by
  refine ⟨_, if_pos ?_, fun m mem => List.mem_mergeSort.1 mem⟩
  simpa [or_assoc] using order

theorem exists_writeAt {v : Value} (writable : v.Writable) (layout : Layout)
    (sorts : layout.sortKeys = true → v.Sortable) (depth : Nat) : ∃ text, writeAt layout depth v = .ok text := by
  induction writable generalizing depth with
  | scalar s short =>
    rw [writeAt]
    exact exists_scalarText short
  | sequence kind items each ih =>
    obtain ⟨texts, written⟩ := exists_collect (l := writeItems layout (depth + 1) items) <| by
      intro x mem
      rw [writeItems_eq_map] at mem
      obtain ⟨v, inside, rfl⟩ := List.mem_map.1 mem
      refine ih v inside (fun sorted => ?_) (depth + 1)
      cases sorts sorted with
      | sequence _ _ each => exact each v inside
    exact ⟨_, by rw [writeAt, written]; rfl⟩
  | mapping entries keys each ih =>
    have members : ∀ m ∈ writeEntries layout (depth + 1) entries, ∃ text, memberText layout m = .ok text := by
      intro m mem
      rw [writeEntries_eq_map] at mem
      obtain ⟨e, inside, rfl⟩ := List.mem_map.1 mem
      obtain ⟨key, spelt⟩ := exists_keyText (keys e inside)
      obtain ⟨text, written⟩ := ih e inside (fun sorted => by
        cases sorts sorted with
        | mapping _ _ each => exact each e inside) (depth + 1)
      exact ⟨_, by rw [memberText, spelt, written]; rfl⟩
    -- Sorting needs keys that can be compared; in the authored order any key will do.
    obtain ⟨sorted, order, all⟩ : ∃ sorted, (if layout.sortKeys then
        sortMembers (writeEntries layout (depth + 1) entries) else
          .ok (writeEntries layout (depth + 1) entries)) = .ok sorted ∧
        ∀ m ∈ sorted, m ∈ writeEntries layout (depth + 1) entries := by
      cases sorted : layout.sortKeys with
      | false => exact ⟨_, rfl, fun _ mem => mem⟩
      | true =>
        cases sorts sorted with
        | mapping _ order _ =>
          refine exists_sortMembers ?_
          rw [writeEntries_eq_map]
          simpa only [List.length_map, List.forall_mem_map] using order
    obtain ⟨lines, written⟩ := exists_collect (l := sorted.map (memberText layout)) <| by
      intro x mem
      obtain ⟨m, inside, rfl⟩ := List.mem_map.1 mem
      exact members m (all m inside)
    refine ⟨enclose layout depth "\x7b" "\x7d" lines, ?_⟩
    rw [writeAt_mapping]
    exact Outcome.bind_eq_ok.2 ⟨sorted, order, Outcome.bind_eq_ok.2 ⟨lines, written, rfl⟩⟩

end Json

namespace Value.Plain

variable {v : Value}

theorem writable (plain : v.Plain) : v.Writable := by
  induction plain with
  | null | bool b | text s | float x held => exact .scalar _ (by simp)
  | int i short => exact .scalar _ (by simpa using short)
  | list items each ih => exact .sequence _ _ ih
  | mapping entries texts distinct each ih =>
    refine .mapping _ (fun e mem => ?_) ih
    obtain ⟨key, same⟩ := texts e mem
    rw [same]
    trivial

theorem sortable (plain : v.Plain) : v.Sortable := by
  induction plain with
  | null | bool b | text s | float x held | int i short => exact .scalar _
  | list items each ih => exact .sequence _ _ ih
  | mapping entries texts distinct each ih =>
    refine .mapping _ (.inr (.inl fun e mem => ?_)) ih
    obtain ⟨key, same⟩ := texts e mem
    rw [same]
    rfl

theorem exists_writeAt (plain : v.Plain) (layout : Json.Layout) (depth : Nat) :
    ∃ text, Json.writeAt layout depth v = .ok text :=
  Json.exists_writeAt plain.writable layout (fun _ => plain.sortable) depth

end Value.Plain
end VaultSchema
