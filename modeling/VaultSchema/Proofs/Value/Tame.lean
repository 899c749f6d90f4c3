import VaultSchema.Proofs.Calendar.Instants
import VaultSchema.Proofs.Json.Plain
import VaultSchema.Schema.Uniqueness

set_option autoImplicit false

namespace VaultSchema

namespace Scalar

/-- Integers have a nearest double, doubles are proper, and instants lie in the years of the calendar. -/
def Tame : Scalar → Prop
  | .int i => i.natAbs < Binary64.overflowInteger
  | .float x => x.Held
  | .moment m => m.InYears
  | _ => True

theorem Tame.short {s : Scalar} (tame : s.Tame) : ∀ i, s = .int i → Short i := by
  rintro i rfl
  have below : Binary64.overflowInteger ≤ 2 ^ 1024 := Nat.sub_le _ _
  exact short_iff.2 ((Nat.lt_of_lt_of_le tame below).trans overflow_written)

theorem IsKey.exists_spelling {s : Scalar} (key : s.IsKey) : ∃ text, s.spelling = .ok text := by
  cases s with
  | int i => exact ⟨_, integerText_ok key⟩
  | _ => exact ⟨_, rfl⟩

end Scalar

namespace Value

inductive Tame : Value → Prop where
  | scalar (s : Scalar) (tame : s.Tame) : Tame (.scalar s)
  | sequence (kind : SequenceKind) (items : List Value) (each : ∀ v ∈ items, Tame v) : Tame (.sequence kind items)
  | mapping (entries : Entries) (keys : ∀ e ∈ entries, e.1.IsKey) (each : ∀ e ∈ entries, Tame e.2) :
    Tame (.mapping entries)

@[simp] theorem tame_scalar {s : Scalar} : (Value.scalar s).Tame ↔ s.Tame :=
  ⟨fun | .scalar _ tame => tame, .scalar s⟩

@[simp] theorem tame_sequence {kind : SequenceKind} {items : List Value} :
    (Value.sequence kind items).Tame ↔ ∀ v ∈ items, v.Tame :=
  ⟨fun | .sequence _ _ each => each, .sequence kind items⟩

@[simp] theorem tame_mapping {m : Entries} :
    (Value.mapping m).Tame ↔ (∀ e ∈ m, e.1.IsKey) ∧ ∀ e ∈ m, e.2.Tame :=
  ⟨fun | .mapping _ keys each => ⟨keys, each⟩, fun h => .mapping m h.1 h.2⟩

variable {v : Value}

theorem Tame.writable (tame : v.Tame) : v.Writable := by
  induction tame with
  | scalar s tame => exact .scalar _ tame.short
  | sequence kind items each ih => exact .sequence _ _ ih
  | mapping entries keys each ih => exact .mapping _ keys ih

theorem exists_displayScalar {s : Scalar} (tame : s.Tame) : ∃ text, displayScalar s = .ok text := by
  cases s with
  | int i => exact ⟨_, integerText_ok (tame.short i rfl)⟩
  | float x => exact displayFloat_ok tame
  | _ => exact ⟨_, rfl⟩

theorem displays_eq_mapM (items : List Value) : displays items = items.mapM display := by
  induction items with
  | nil => rfl
  | cons v rest ih => rw [displays, ih, List.mapM_cons]

theorem Tame.exists_display (tame : v.Tame) : ∃ text, v.display = .ok text := by
  induction tame with
  | scalar s tame =>
    rw [display]
    exact exists_displayScalar tame
  | sequence kind items each ih =>
    obtain ⟨texts, shown⟩ := Outcome.exists_mapM ih
    exact ⟨_, by rw [display, displays_eq_mapM, shown]; rfl⟩
  | mapping entries keys each ih =>
    rw [display]
    exact Json.exists_writeAt (Tame.mapping entries keys each).writable .compact nofun 0

theorem Tame.exists_number (tame : v.Tame) : ∃ x, v.number = .ok x := by
  have integers : ∀ i, v = .int i → ∃ x, Binary64.ofInt? i = some x := by
    rintro i rfl
    cases tame with
    | scalar _ tame =>
      obtain ⟨units, _, nearest⟩ := Binary64.exists_ofInt? tame
      exact ⟨_, nearest⟩
  delta number
  -- For any choice of doubles: the actual one would be computed where its cases are told apart.
  obtain ⟨nearest, same⟩ : ∃ nearest, nearest = Binary64.ofInt? := ⟨_, rfl⟩
  rw [← same] at integers ⊢
  split
  · obtain ⟨x, found⟩ := integers _ rfl
    exact ⟨some x, by rw [found]⟩
  all_goals exact ⟨_, rfl⟩

/-- What is taken for a date has a date in universal time, if it is an instant at all. -/
theorem Tame.exists_date (tame : v.Tame) (date : PrimitiveKind.date.accepts v = true) {t : Binary64}
    (instant : v.timestamp? = some t) : ∃ d, Moment.dateOfTimestamp? t = some d := by
  obtain ⟨m, denotes, rfl⟩ := Option.map_eq_some_iff.1 instant
  refine Moment.exists_dateOfTimestamp? ?_
  cases tame with
  | scalar s tame =>
    cases s with
    | text s =>
      obtain ⟨d, rfl⟩ := exists_startOf (by simpa [PrimitiveKind.accepts] using date) denotes
      exact Moment.startOf_inYears d
    | date d =>
      cases denotes
      exact Moment.startOf_inYears d
    | moment m =>
      cases denotes
      exact tame
    | _ => cases denotes
  | _ => cases denotes

theorem exists_ordered {items : List Value} (each : ∀ v ∈ items, v.Writable ∧ v.Sortable) :
    ∃ sorted, ordered items = .ok sorted ∧ ∀ v ∈ sorted, v ∈ items := by
  obtain ⟨keys, written⟩ := exists_collect (l := items.map (Json.write .canonical)) <| by
    intro x mem
    obtain ⟨v, inside, rfl⟩ := List.mem_map.1 mem
    exact Json.exists_writeAt (each v inside).1 .canonical (fun _ => (each v inside).2) 0
  refine ⟨_, by rw [ordered, written]; rfl, fun v mem => ?_⟩
  obtain ⟨row, sorted, rfl⟩ := List.mem_map.1 mem
  exact (List.of_mem_zip (List.mem_mergeSort.1 sorted)).2

def MembersSortable (v : Value) : Prop := ∀ kind items, v = .sequence kind items → ∀ w ∈ items, w.Sortable

theorem Tame.exists_uniqueKey (tame : v.Tame) (sortable : v.MembersSortable) : ∃ key, v.uniqueKey = .ok key := by
  cases tame with
  | scalar s tame =>
    cases s with
    | int i | float x => exact exists_displayScalar tame
    | _ => exact ⟨_, rfl⟩
  | sequence kind items each =>
    obtain ⟨sorted, order, own⟩ := exists_ordered fun w mem => ⟨(each w mem).writable, sortable kind items rfl w mem⟩
    rw [uniqueKey, order]
    exact Json.exists_writeAt (.sequence .list sorted fun w mem => (each w (own w mem)).writable) .spaced nofun 0
  | mapping entries keys each =>
    exact Json.exists_writeAt (Tame.mapping entries keys each).writable .spaced nofun 0

end Value
end VaultSchema
