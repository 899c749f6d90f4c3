import VaultSchema.Proofs.Calendar.Texts
import VaultSchema.Proofs.Calendar.Timestamps
import VaultSchema.Proofs.Schema.Agreement
import VaultSchema.Proofs.Schema.Conformance

/-! Bounds of numbers and dates. A value at which nothing is found lies between the bounds of its
declaration, if it has a place in their order at all: the number that is none lies nowhere, and
neither does a text that is shaped like a date and names no day. -/

set_option autoImplicit false

namespace VaultSchema

def Binary64.size? : Binary64 → Option (WithBot (WithTop ℚ))
  | .nan => none
  | .infinite true => some ⊥
  | .infinite false => some ⊤
  | .finite s u => some ((signedUnits s u / unit : ℚ) : WithTop ℚ)

/-- How large a number is, truth values counting as one and zero. -/
def Scalar.size? : Scalar → Option (WithBot (WithTop ℚ))
  | .bool b => some (((if b then 1 else 0 : Int) : ℚ) : WithTop ℚ)
  | .int i => some ((i : ℚ) : WithTop ℚ)
  | .float x => x.size?
  | _ => none

/-- Ranks and sizes of numbers, of which `d` units make one. -/
inductive Scalar.Placed (d : ℚ) : Option (Int × Int) → Option (WithBot (WithTop ℚ)) → Prop where
  | nowhere : Placed d none none
  | least : Placed d (some (-1, 0)) (some ⊥)
  | greatest : Placed d (some (1, 0)) (some ⊤)
  | between (k : Int) : Placed d (some (0, k)) (some ((k / d : ℚ) : WithTop ℚ))

theorem Scalar.placed (a : Scalar) : Placed Binary64.unit a.rank? a.size? := by
  have whole (i : Int) : Placed Binary64.unit (some (Binary64.rankOfInt i)) (some ((i : ℚ) : WithTop ℚ)) := by
    have some : (Binary64.unit : ℚ) ≠ 0 := Nat.cast_ne_zero.2 Decimal.Scientific.unit_pos.ne'
    have same : ((i * Binary64.unit : Int) : ℚ) / Binary64.unit = i := by
      push_cast
      exact mul_div_cancel_right₀ _ some
    rw [← same]
    exact .between _
  cases a with
  | bool b => exact whole _
  | int i => exact whole i
  | float x =>
    cases x with
    | nan => exact .nowhere
    | infinite s => cases s <;> constructor
    | finite s u => exact .between _
  | _ => exact .nowhere

theorem Scalar.Placed.below_iff {d : ℚ} (pos : 0 < d) {a b : Scalar} (first : Placed d a.rank? a.size?)
    (second : Placed d b.rank? b.size?) :
    scalarBelow a b = true ↔ ∃ x y, a.size? = some x ∧ b.size? = some y ∧ x < y := by
  have order (k l : Int) : (k / d : ℚ) < l / d ↔ k < l := by rw [div_lt_div_iff_of_pos_right pos, Int.cast_lt]
  have greatest (q : ℚ) : ((q : WithTop ℚ) : WithBot (WithTop ℚ)) < ⊤ := WithBot.coe_lt_coe.2 (WithTop.coe_lt_top q)
  unfold scalarBelow
  generalize a.rank? = i at *
  generalize a.size? = x at *
  generalize b.rank? = j at *
  generalize b.size? = y at *
  cases first <;> cases second <;> simp [Binary64.rankLess, order, greatest]

/-- One number lies below another just when both have a size and its size is less. -/
theorem scalarBelow_iff {a b : Scalar} :
    scalarBelow a b = true ↔ ∃ x y, a.size? = some x ∧ b.size? = some y ∧ x < y :=
  a.placed.below_iff (Nat.cast_pos.2 Decimal.Scientific.unit_pos) b.placed

theorem NumberConstraints.Met.between {c : NumberConstraints} {n : Scalar} (met : c.Met n)
    {x : WithBot (WithTop ℚ)} (size : n.size? = some x) :
    (∀ b y, c.min = some b → b.size? = some y → y ≤ x) ∧ ∀ b y, c.max = some b → b.size? = some y → x ≤ y := by
  constructor
  · intro b y bound sized
    have notBelow := met.min b bound
    by_contra less
    have below : scalarBelow n (.float b) = true := scalarBelow_iff.2 ⟨x, y, size, sized, not_le.1 less⟩
    exact Bool.false_ne_true (notBelow.symm.trans below)
  · intro b y bound sized
    have notBelow := met.max b bound
    by_contra less
    have below : scalarBelow (.float b) n = true := scalarBelow_iff.2 ⟨y, x, sized, size, not_le.1 less⟩
    exact Bool.false_ne_true (notBelow.symm.trans below)

namespace Moment

/-- One instant is no later than another, as far as their seconds tell: if not both come back from their
seconds, they may have as many. -/
def NotAfter (a b : Moment) : Prop :=
  a.toMicros ≤ b.toMicros ∨ ¬(a.Sharp ∧ b.Sharp) ∧ a.timestamp.equal b.timestamp = true

theorem notAfter_of_seconds {a b : Moment} (order : b.timestamp.less a.timestamp = false) : a.NotAfter b := by
  rcases le_or_gt a.toMicros b.toMicros with le | later
  · exact .inl le
  · refine .inr ⟨fun ⟨first, second⟩ => ?_, ?_⟩
    · simp [less_timestamp second first later] at order
    · exact Binary64.equal_of_not_less a.timestamp_ne_nan b.timestamp_ne_nan (not_less_timestamp later.le) order

end Moment

theorem DateConstraints.Met.between {c : DateConstraints} {v : Value} (met : c.Met v) {t : Moment}
    (denotes : v.moment? = some t) :
    (∀ text b, c.min = some text → Value.momentOfText? text = some b → b.NotAfter t) ∧
      ∀ text b, c.max = some text → Value.momentOfText? text = some b → t.NotAfter b := by
  have instant : v.timestamp? = some t.timestamp := by rw [Value.timestamp?, denotes]; rfl
  have bound {text : String} {b : Moment} (read : Value.momentOfText? text = some b) :
      boundInstant? (some text) = some (text, b.timestamp) := by
    have filled : text ≠ "" := by
      rintro rfl
      have none : Value.momentOfText? "" = none := by decide +kernel
      simp [none] at read
    simp [boundInstant?, filled, Value.timestamp?, Value.moment?, read]
  constructor
  · intro text b own read
    have order := met.min _ _ instant (own ▸ bound read)
    dsimp only at order
    exact Moment.notAfter_of_seconds order
  · intro text b own read
    have order := met.max _ _ instant (own ▸ bound read)
    dsimp only at order
    exact Moment.notAfter_of_seconds order

/-- A value of a date's type denotes an instant, unless it is a text that names no day. -/
theorem Value.instant_of_date {v : Value} (fits : PrimitiveKind.date.accepts v = true) :
    (∃ text, v = .text text ∧ isDateText text = true ∧ ∀ d : Date, Text.trim text ≠ d.text) ∨
      ∃ t, v.moment? = some t := by
  cases v with
  | scalar a =>
    cases a with
    | date d => exact .inr ⟨_, rfl⟩
    | moment t => exact .inr ⟨_, rfl⟩
    | text text =>
      have shaped : isDateText text = true := by simpa [PrimitiveKind.accepts] using fits
      cases denotes : momentOfText? text with
      | some t => exact .inr ⟨t, denotes⟩
      | none =>
        refine .inl ⟨text, rfl, shaped, fun d same => ?_⟩
        rw [momentOfText?, same] at denotes
        have day := momentOfText?_text d
        rw [momentOfText?, d.trim_text, denotes] at day
        cases day
    | _ => simp [PrimitiveKind.accepts] at fits
  | _ => simp [PrimitiveKind.accepts] at fits

theorem Value.size_of_number {v : Value} (fits : PrimitiveKind.number.accepts v = true) :
    v = .float .nan ∨ ∃ n x, v = .scalar n ∧ n.size? = some x := by
  cases v with
  | scalar a =>
    cases a with
    | int i => exact .inr ⟨_, _, rfl, rfl⟩
    | float x =>
      cases x with
      | nan => exact .inl rfl
      | infinite negative => cases negative <;> exact .inr ⟨_, _, rfl, rfl⟩
      | finite negative units => exact .inr ⟨_, _, rfl, rfl⟩
    | _ => simp [PrimitiveKind.accepts] at fits
  | _ => simp [PrimitiveKind.accepts] at fits

namespace Registry

variable {r : Registry} {s : Schema} {spec : FieldSpec} {m : Entries} {checkUnknown : Bool} {vs : List Violation}
  {document : String} {top : FoldedKeys} {v : Value}

theorem stamped_of_group (validated : r.validate document (some m) s checkUnknown = .ok vs)
    (folded : FoldedKeys.ofEntries m = .ok top) {g : FieldGroup} (group : g ∈ s.groups) :
    ∃ gs, r.groupFindings top g = .ok gs ∧ ∀ f ∈ gs, f.stamp document s.id ∈ vs := by
  obtain ⟨fs, found, same⟩ := Outcome.bind_eq_ok.1 validated
  cases same
  obtain ⟨top', folded', found⟩ := Outcome.bind_eq_ok.1 found
  obtain rfl : top = top' := by
    rw [Option.getD_some, folded] at folded'
    exact Except.ok.inj folded'
  obtain ⟨declared, each, found⟩ := Outcome.bind_eq_ok.1 found
  obtain ⟨unknown, rfl⟩ : ∃ unknown, fs = declared.flatten ++ unknown := by
    dsimp only at found
    split at found
    · obtain ⟨unknown, -, same⟩ := Outcome.bind_eq_ok.1 found
      exact ⟨unknown, (Except.ok.inj same).symm⟩
    · exact ⟨[], (Except.ok.inj found).symm⟩
  obtain ⟨gs, inside, looked⟩ := Outcome.partner_right (Outcome.mapM_eq_ok_iff.1 each) group
  refine ⟨gs, looked, fun f mem => List.mem_map_of_mem (List.mem_append_left _ ?_)⟩
  exact List.mem_flatten.2 ⟨gs, inside, mem⟩

/-- A value at which nothing is found has the type of its only declaration and meets its constraint. -/
theorem fits_of_silent (single : s.fields.filter (·.name == spec.name) = [spec]) (free : spec.conditions = [])
    (validated : r.validate document (some m) s checkUnknown = .ok vs) (folded : FoldedKeys.ofEntries m = .ok top)
    (present : top.value? spec.name = some v) (silent : ∀ w ∈ vs, w.field ≠ spec.name) :
    r.fits v spec.type = true ∧ spec.ValueMet v := by
  have group : ⟨spec.name, [spec]⟩ ∈ s.groups := by
    have mem : spec ∈ s.fields := (List.mem_filter.1 (single ▸ List.mem_singleton_self spec)).1
    exact FieldGroup.mem_ofFields.2 ⟨⟨spec, mem, rfl⟩, single.symm⟩
  obtain ⟨gs, looked, reported⟩ := stamped_of_group validated folded group
  have silent : ∀ f ∈ gs, f.field ≠ spec.name := fun f mem => silent _ (reported f mem)
  rw [groupFindings_single spec free present, valueFindings_step] at looked
  cases fits : r.fits v spec.type with
  | false =>
    have none : r.variant? v [spec] = none := by simp [variant?, fits]
    simp only [none] at looked
    cases looked
    -- The mismatch would lie at this very path.
    exact (silent _ (List.mem_singleton_self _) rfl).elim
  | true =>
    have some : r.variant? v [spec] = some spec := by simp [variant?, fits]
    simp only [some] at looked
    obtain ⟨own, plain, looked⟩ := Outcome.bind_eq_ok.1 looked
    obtain ⟨elements, -, looked⟩ := Outcome.bind_eq_ok.1 looked
    obtain ⟨inner, -, looked⟩ := Outcome.bind_eq_ok.1 looked
    obtain ⟨cross, -, same⟩ := Outcome.bind_eq_ok.1 looked
    cases same
    refine ⟨rfl, (plainFindings_eq_nil_iff plain).1 (List.eq_nil_iff_forall_not_mem.2 fun f mem => ?_)⟩
    exact silent f (by simp [mem]) (constrains_plainFindings plain f mem).place

/-- A value at which nothing is found lies between the bounds of its only declaration: a number that is one
between those that are one, and the instant of a date between those of the bounds that denote one, as far as
seconds tell. Texts that name no day, though shaped like one, are the only dates without an instant. -/
theorem bounds_kept (spec : FieldSpec) (single : s.fields.filter (·.name == spec.name) = [spec])
    (free : spec.conditions = []) (validated : r.validate document (some m) s checkUnknown = .ok vs)
    (folded : FoldedKeys.ofEntries m = .ok top) (present : top.value? spec.name = some v)
    (silent : ∀ w ∈ vs, w.field ≠ spec.name) :
    (spec.type = .primitive .number → ∀ c, spec.numberConstraints = some c →
        v = .float .nan ∨ ∃ n x, v = .scalar n ∧ n.size? = some x ∧
          (∀ b y, c.min = some b → b.size? = some y → y ≤ x) ∧ ∀ b y, c.max = some b → b.size? = some y → x ≤ y) ∧
      (spec.type = .primitive .date → ∀ c, spec.dateConstraints = some c →
        (∃ text, v = .text text ∧ isDateText text = true ∧ ∀ d : Date, Text.trim text ≠ d.text) ∨
          ∃ t, v.moment? = some t ∧
            (∀ text b, c.min = some text → Value.momentOfText? text = some b → b.NotAfter t) ∧
              ∀ text b, c.max = some text → Value.momentOfText? text = some b → t.NotAfter b) := by
  obtain ⟨fits, met⟩ := fits_of_silent single free validated folded present silent
  constructor
  · intro type c own
    rw [type, fits_primitive] at fits
    refine (Value.size_of_number fits).imp_right ?_
    rintro ⟨n, x, rfl, size⟩
    simp only [FieldSpec.ValueMet, type] at met
    exact ⟨n, x, rfl, size, (met c own).between size⟩
  · intro type c own
    rw [type, fits_primitive] at fits
    refine (Value.instant_of_date fits).imp_right ?_
    rintro ⟨t, denotes⟩
    simp only [FieldSpec.ValueMet, type] at met
    exact ⟨t, denotes, (met c own).between denotes⟩

/-- Tasks are due in the years 2025 to 2999. -/
def dueDate : FieldSpec where
  name := "due"
  type := .primitive .date
  dateConstraints := some ⟨some "2025-01-01", some "2999-12-31"⟩

def weight : FieldSpec where
  name := "weight"
  type := .primitive .number
  numberConstraints := some ⟨some .zero, none⟩

def tasks : Schema := { id := "tasks", query := "*", fields := [dueDate, weight] }

theorem tasks_pass {n : Value} (folded : FoldedKeys.ofEntries m = .ok top)
    (day : top.value? "due" = some v) (number : top.value? "weight" = some n)
    (isDay : PrimitiveKind.date.accepts v = true) (isNumber : PrimitiveKind.number.accepts n = true)
    (inTime : plainFindings v dueDate "due" = .ok []) (heavy : plainFindings n weight "weight" = .ok []) :
    r.validate document (some m) tasks false = .ok [] := by
  have groups : tasks.groups = [⟨"due", [dueDate]⟩, ⟨"weight", [weight]⟩] := by decide
  have days : r.groupFindings top ⟨"due", [dueDate]⟩ = .ok [] :=
    (groupFindings_single dueDate rfl day).trans
      ((r.valueFindings_primitive top rfl rfl rfl rfl isDay "due").trans inTime)
  have numbers : r.groupFindings top ⟨"weight", [weight]⟩ = .ok [] :=
    (groupFindings_single weight rfl number).trans
      ((r.valueFindings_primitive top rfl rfl rfl rfl isNumber "weight").trans heavy)
  have each : tasks.groups.mapM (r.groupFindings top) = .ok [[], []] := by
    rw [groups, Outcome.mapM_eq_ok_iff]
    exact .cons days (.cons numbers .nil)
  unfold validate findings
  rw [Option.getD_some, folded]
  exact Outcome.bind_eq_ok.2 ⟨[], Outcome.bind_eq_ok.2 ⟨top, rfl, Outcome.bind_eq_ok.2 ⟨_, each, rfl⟩⟩, rfl⟩

theorem bounds_kept_task :
    let task : Entries := [(.text "Due", .text "2025-02-28"), (.text "weight", .int 3)]
    ({} : Registry).validate "a.md" (some task) tasks false = .ok [] ∧
      (∃ t b, (Value.text "2025-02-28").moment? = some t ∧ Value.momentOfText? "2025-01-01" = some b ∧
        b.toMicros ≤ t.toMicros) ∧
      ∃ x y, (Scalar.int 3).size? = some x ∧ Binary64.zero.size? = some y ∧ y ≤ x := by
  intro task
  have folded : FoldedKeys.ofEntries task =
      .ok ⟨[("due", .text "Due", .text "2025-02-28"), ("weight", .text "weight", .int 3)]⟩ := by cbv
  have validated : ({} : Registry).validate "a.md" (some task) tasks false = .ok [] :=
    tasks_pass folded rfl rfl rfl rfl (by decide +kernel) (by decide +kernel)
  refine ⟨validated, ?_, ?_⟩
  · obtain ⟨-, dates⟩ := bounds_kept dueDate (by decide) rfl validated folded rfl (by simp)
    have first : Value.momentOfText? "2025-01-01" = some (Moment.startOf ⟨2025, 1, 1, rfl⟩) := by decide +kernel
    have own : (Value.text "2025-02-28").moment? = some (Moment.startOf ⟨2025, 2, 28, rfl⟩) := by decide +kernel
    rcases dates rfl _ rfl with ⟨text, same, -, none⟩ | ⟨t, denotes, notBefore, -⟩
    · cases same
      exact (none ⟨2025, 2, 28, rfl⟩ (by decide +kernel)).elim
    · obtain rfl := Option.some.inj (own.symm.trans denotes)
      rcases notBefore _ _ rfl first with le | ⟨blurred, -⟩
      · exact ⟨_, _, denotes, first, le⟩
      · exact (blurred ⟨Moment.sharp_startOf _, Moment.sharp_startOf _⟩).elim
  · obtain ⟨numbers, -⟩ := bounds_kept weight (by decide) rfl validated folded rfl (by simp)
    rcases numbers rfl _ rfl with nan | ⟨n, x, same, size, notBelow, -⟩
    · cases nan
    · cases same
      exact ⟨x, _, size, rfl, notBelow _ _ rfl rfl⟩

/-- A text that names no day is not compared with the bounds, and neither is the number that is none. -/
theorem no_day_passes :
    ({} : Registry).validate "a.md" (some [(.text "due", .text "2024-02-30"), (.text "weight", .float .nan)]) tasks
        false = .ok [] ∧
      isDateText "2024-02-30" = true ∧ (Value.text "2024-02-30").moment? = none := by
  have folded : FoldedKeys.ofEntries [(.text "due", .text "2024-02-30"), (.text "weight", .float .nan)] =
      .ok ⟨[("due", .text "due", .text "2024-02-30"), ("weight", .text "weight", .float .nan)]⟩ := by cbv
  refine ⟨tasks_pass folded rfl rfl rfl rfl ?_ ?_, ?_, ?_⟩
  all_goals decide +kernel

end Registry
end VaultSchema
