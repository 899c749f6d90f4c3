import VaultSchema.Proofs.Json.Widths
import VaultSchema.Proofs.Text.Order
import VaultSchema.Schema.Uniqueness

/-! The text by which a sequence is told apart, and the order of its members. Members are sorted by
their text with the keys of mappings sorted, but written as they were authored, so those that differ
in the order of keys alone stay in the order in which they came. -/

set_option autoImplicit false

namespace VaultSchema.Value

abbrev Row := String × String

def inOrder (rows : List Row) : List Row := rows.mergeSort fun a b => decide (a.1 ≤ b.1)

def keyOf (rows : List Row) : String := "[" ++ ", ".intercalate ((inOrder rows).map (·.2)) ++ "]"

variable {xs ys : List Row}

theorem row_trans (a b c : Row) : decide (a.1 ≤ b.1) = true → decide (b.1 ≤ c.1) = true →
    decide (a.1 ≤ c.1) = true := by
  simp only [decide_eq_true_eq]
  exact le_trans

theorem row_total (a b : Row) : (decide (a.1 ≤ b.1) || decide (b.1 ≤ a.1)) = true := by
  simp only [Bool.or_eq_true, decide_eq_true_eq]
  exact le_total a.1 b.1

theorem inOrder_perm (xs : List Row) : (inOrder xs).Perm xs := List.mergeSort_perm _ _

theorem inOrder_pairwise (xs : List Row) : (inOrder xs).Pairwise fun a b => a.1 ≤ b.1 :=
  Text.mergeSort_pairwise Prod.fst xs

theorem firsts_inOrder (perm : xs.Perm ys) : (inOrder xs).map Prod.fst = (inOrder ys).map Prod.fst := by
  have both : (inOrder xs).Perm (inOrder ys) := (inOrder_perm xs).trans (perm.trans (inOrder_perm ys).symm)
  refine (both.map Prod.fst).eq_of_pairwise (fun _ _ _ _ => le_antisymm) ?_ ?_
  · exact List.pairwise_map.2 (inOrder_pairwise xs)
  · exact List.pairwise_map.2 (inOrder_pairwise ys)

/-- Rows that are sorted by the same text stay in order. -/
theorem filter_inOrder (xs : List Row) (k : String) : (inOrder xs).filter (·.1 == k) = xs.filter (·.1 == k) := by
  induction xs with
  | nil => simp [inOrder]
  | cons x xs ih =>
    obtain ⟨front, back, whole, rest, before⟩ := List.mergeSort_cons row_trans row_total x xs
    have split : inOrder xs = front ++ back := rest
    rw [split, List.filter_append] at ih
    rw [show inOrder (x :: xs) = front ++ x :: back from whole, List.filter_append]
    by_cases here : x.1 = k
    · have none : front.filter (·.1 == k) = [] := by
        rw [List.filter_eq_nil_iff]
        intro y mem same
        have after := before y mem
        rw [← here, beq_iff_eq] at same
        simp [same] at after
      rw [none, List.nil_append] at ih ⊢
      rw [List.filter_cons_of_pos (by simpa using here), List.filter_cons_of_pos (by simpa using here), ih]
    · rw [List.filter_cons_of_neg (by simpa using here), List.filter_cons_of_neg (by simpa using here), ih]

theorem rows_ext (firsts : xs.map Prod.fst = ys.map Prod.fst)
    (classes : ∀ k : String, xs.filter (·.1 == k) = ys.filter (·.1 == k)) : xs = ys := by
  induction xs generalizing ys with
  | nil => exact (List.map_eq_nil_iff.1 firsts.symm).symm
  | cons x xs ih =>
    cases ys with
    | nil => cases firsts
    | cons y ys =>
      rw [List.map_cons, List.map_cons, List.cons.injEq] at firsts
      have heads := classes x.1
      rw [List.filter_cons_of_pos (by simp), List.filter_cons_of_pos (by simp [firsts.1]), List.cons.injEq] at heads
      obtain rfl := heads.1
      rw [ih firsts.2 fun k => ?_]
      by_cases here : x.1 = k
      · have tails := classes k
        rw [List.filter_cons_of_pos (by simpa using here), List.filter_cons_of_pos (by simpa using here)] at tails
        exact (List.cons.inj tails).2
      · have tails := classes k
        rwa [List.filter_cons_of_neg (by simpa using here), List.filter_cons_of_neg (by simpa using here)] at tails

theorem inOrder_eq_iff (perm : xs.Perm ys) :
    inOrder xs = inOrder ys ↔ ∀ k : String, xs.filter (·.1 == k) = ys.filter (·.1 == k) := by
  constructor
  · intro same k
    rw [← filter_inOrder xs, ← filter_inOrder ys, same]
  · intro classes
    refine rows_ext (firsts_inOrder perm) fun k => ?_
    rw [filter_inOrder, filter_inOrder, classes]

theorem enclosed_inj {s t : String} (same : "[" ++ s ++ "]" = "[" ++ t ++ "]") : s = t := by
  have lists := congrArg String.toList same
  simpa only [String.toList_append, List.append_cancel_left_eq, List.append_cancel_right_eq, String.toList_inj]
    using lists

/-- The text gives the rows in order back, since it is known how long each of them is. -/
theorem keyOf_eq_iff (perm : xs.Perm ys) (widths : ∀ r ∈ xs, r.1.length = r.2.length) :
    keyOf xs = keyOf ys ↔ inOrder xs = inOrder ys := by
  refine ⟨fun same => ?_, fun same => by rw [keyOf, same, keyOf]⟩
  have firsts := firsts_inOrder perm
  have lengths : ∀ zs : List Row, zs.Perm xs →
      ((inOrder zs).map Prod.snd).map String.length = ((inOrder zs).map Prod.fst).map String.length := by
    intro zs like
    rw [List.map_map, List.map_map]
    refine List.map_congr_left fun r mem => (widths r ?_).symm
    exact ((inOrder_perm zs).trans like).mem_iff.1 mem
  have seconds : (inOrder xs).map Prod.snd = (inOrder ys).map Prod.snd := by
    refine Text.intercalate_inj ?_ (enclosed_inj same)
    rw [lengths xs (List.Perm.refl _), lengths ys perm.symm, firsts]
  rw [← List.zip_unzip (inOrder xs), ← List.zip_unzip (inOrder ys)]
  rw [List.unzip_fst, List.unzip_fst, List.unzip_snd, List.unzip_snd, firsts, seconds]

def Written (v : Value) : Prop := (∃ c, Json.write .canonical v = .ok c) ∧ ∃ s, Json.write .spaced v = .ok s

def row (v : Value) : Row := ((Json.write .canonical v).toOption.getD "", (Json.write .spaced v).toOption.getD "")

variable {kind : SequenceKind} {items others : List Value}

theorem row_eq {v : Value} {c s : String} (sorted : Json.write .canonical v = .ok c)
    (authored : Json.write .spaced v = .ok s) : v.row = (c, s) := by
  rw [row, sorted, authored]
  rfl

theorem Written.canonical {v : Value} (h : v.Written) : Json.write .canonical v = .ok v.row.1 := by
  obtain ⟨⟨c, sorted⟩, s, authored⟩ := h
  rw [row_eq sorted authored, sorted]

theorem Written.spaced {v : Value} (h : v.Written) : Json.write .spaced v = .ok v.row.2 := by
  obtain ⟨⟨c, sorted⟩, s, authored⟩ := h
  rw [row_eq sorted authored, authored]

theorem Written.width {v : Value} (h : v.Written) : v.row.1.length = v.row.2.length :=
  Json.length_write h.canonical h.spaced

theorem map_eq_map_ok {f : Value → Except ValueFault String} {g : Value → String}
    (gives : ∀ v c, f v = .ok c → g v = c) {texts : List String} :
    items.map f = texts.map .ok ↔ (∀ v ∈ items, ∃ c, f v = .ok c) ∧ texts = items.map g := by
  induction items generalizing texts with
  | nil => simp [eq_comm]
  | cons v items ih =>
    cases texts with
    | nil => simp
    | cons c texts =>
      rw [List.map_cons, List.map_cons, List.map_cons, List.cons.injEq, List.cons.injEq, ih, List.forall_mem_cons]
      constructor
      · rintro ⟨written, each, rest⟩
        exact ⟨⟨⟨c, written⟩, each⟩, (gives v c written).symm, rest⟩
      · rintro ⟨⟨⟨d, written⟩, each⟩, rfl, rest⟩
        exact ⟨by rw [written, gives v d written], each, rest⟩

theorem ordered_eq_ok {sorted : List Value} : ordered items = .ok sorted ↔
    (∀ v ∈ items, ∃ c, Json.write .canonical v = .ok c) ∧
      sorted = items.mergeSort fun a b => decide (a.row.1 ≤ b.row.1) := by
  have gives : ∀ v c, Json.write .canonical v = .ok c → (row v).1 = c := by
    intro v c written
    rw [row, written]
    rfl
  have paired : (((items.map (·.row.1)).zip items).mergeSort fun a b => decide (a.1 ≤ b.1)).map Prod.snd =
      items.mergeSort fun a b => decide (a.row.1 ≤ b.row.1) := by
    have zipped : (items.map (·.row.1)).zip items = items.map fun v => (v.row.1, v) := by
      simpa using List.zip_map' (f := fun v : Value => v.row.1) (g := id) (l := items)
    rw [zipped, ← List.map_mergeSort (r := fun a b : Value => decide (a.row.1 ≤ b.row.1)) fun _ _ _ _ => rfl,
      List.map_map]
    exact List.map_id _
  rw [ordered, Outcome.bind_eq_ok]
  simp only [collect_eq_ok_map, map_eq_map_ok gives, pure, Except.pure, Except.ok.injEq]
  constructor
  · rintro ⟨keys, ⟨each, rfl⟩, rfl⟩
    exact ⟨each, paired⟩
  · rintro ⟨each, rfl⟩
    exact ⟨_, ⟨each, rfl⟩, paired⟩

theorem uniqueKey_sequence {key : String} : uniqueKey (.sequence kind items) = .ok key ↔
    (∀ v ∈ items, v.Written) ∧ key = keyOf (items.map row) := by
  have gives : ∀ v s, Json.write .spaced v = .ok s → (row v).2 = s := by
    intro v s written
    rw [row, written]
    rfl
  have rows : inOrder (items.map row) = (items.mergeSort fun a b => decide (a.row.1 ≤ b.row.1)).map row :=
    (List.map_mergeSort (f := row) (s := fun a b : Row => decide (a.1 ≤ b.1)) fun _ _ _ _ => rfl).symm
  rw [uniqueKey, Outcome.bind_eq_ok, keyOf, rows, List.map_map]
  simp only [ordered_eq_ok, Json.write_sequence_eq_ok (rfl : Json.Layout.spaced.indent = none), map_eq_map_ok gives,
    Written, forall_and]
  constructor
  · rintro ⟨sorted, ⟨canonical, rfl⟩, texts, ⟨spaced, rfl⟩, rfl⟩
    exact ⟨⟨canonical, fun v mem => spaced v (List.mem_mergeSort.2 mem)⟩, rfl⟩
  · rintro ⟨⟨canonical, spaced⟩, rfl⟩
    exact ⟨_, ⟨canonical, rfl⟩, _, ⟨fun v mem => spaced v (List.mem_mergeSort.1 mem), rfl⟩, rfl⟩

theorem exists_uniqueKey_perm {kind' : SequenceKind} {key : String} (keyed : uniqueKey (.sequence kind items) = .ok key)
    (perm : others.Perm items) : ∃ other, uniqueKey (.sequence kind' others) = .ok other :=
  ⟨_, uniqueKey_sequence.2 ⟨fun v mem => (uniqueKey_sequence.1 keyed).1 v (perm.mem_iff.1 mem), rfl⟩⟩

/-- The same members have the same text just when members of one sorted text come in the same order. -/
theorem uniqueKey_perm_iff {kind' : SequenceKind} {key : String} (keyed : uniqueKey (.sequence kind items) = .ok key)
    (perm : others.Perm items) : uniqueKey (.sequence kind' others) = .ok key ↔
      ∀ k : String, (others.map row).filter (·.1 == k) = (items.map row).filter (·.1 == k) := by
  obtain ⟨written, rfl⟩ := uniqueKey_sequence.1 keyed
  have rows : (others.map row).Perm (items.map row) := perm.map row
  have widths : ∀ r ∈ others.map row, r.1.length = r.2.length := by
    intro r mem
    obtain ⟨v, inside, rfl⟩ := List.mem_map.1 mem
    exact (written v (perm.mem_iff.1 inside)).width
  rw [uniqueKey_sequence, ← inOrder_eq_iff rows, ← keyOf_eq_iff rows widths]
  exact ⟨fun h => h.2.symm, fun h => ⟨fun v mem => written v (perm.mem_iff.1 mem), h.symm⟩⟩

/-- Two members in front that are sorted by one text show their order, if they are not authored alike. -/
theorem spaced_eq_of_swap {kind' : SequenceKind} {v w : Value} {rest : List Value} {key : String}
    (keyed : uniqueKey (.sequence kind (v :: w :: rest)) = .ok key)
    (swapped : uniqueKey (.sequence kind' (w :: v :: rest)) = .ok key)
    (same : Json.write .canonical v = Json.write .canonical w) : Json.write .spaced v = Json.write .spaced w := by
  obtain ⟨written, _⟩ := uniqueKey_sequence.1 keyed
  have hv := written v (by simp)
  have hw := written w (by simp)
  have heads := (uniqueKey_perm_iff keyed (List.Perm.swap v w rest)).1 swapped v.row.1
  rw [hv.canonical, hw.canonical, Except.ok.injEq] at same
  simp only [List.map_cons, List.filter_cons, same, beq_self_eq_true, if_true] at heads
  rw [hv.spaced, hw.spaced, (List.cons.inj heads).1]

/-- Members that agree once their keys are sorted are also authored alike. -/
def Uniform (items : List Value) : Prop := ∀ v ∈ items, ∀ w ∈ items,
  Json.write .canonical v = Json.write .canonical w → Json.write .spaced v = Json.write .spaced w

theorem uniform_of_same (each : ∀ v ∈ items, Json.write .canonical v = Json.write .spaced v) : Uniform items := by
  intro v hv w hw same
  rw [← each v hv, ← each w hw, same]

theorem exists_perm_cons_cons {α : Type} {l : List α} {a b : α} (ha : a ∈ l) (hb : b ∈ l) (differ : a ≠ b) :
    ∃ rest, (a :: b :: rest).Perm l := by
  obtain ⟨front, back, rfl⟩ := List.append_of_mem ha
  have other : b ∈ front ++ back := by
    rcases List.mem_append.1 hb with mem | mem
    · exact List.mem_append_left _ mem
    · exact List.mem_append_right _ ((List.mem_cons.1 mem).resolve_left (Ne.symm differ))
  obtain ⟨left, right, split⟩ := List.append_of_mem other
  refine ⟨left ++ right, ?_⟩
  refine List.Perm.trans (List.Perm.cons a ?_) List.perm_middle.symm
  rw [split]
  exact List.perm_middle.symm

/-- The order of the members does not matter exactly if they are uniform. -/
theorem order_ignored_iff {key : String} (keyed : uniqueKey (.sequence kind items) = .ok key) :
    (∀ kind' others, others.Perm items → uniqueKey (.sequence kind' others) = .ok key) ↔ Uniform items := by
  obtain ⟨written, _⟩ := uniqueKey_sequence.1 keyed
  constructor
  · intro ignored v hv w hw same
    by_cases differ : v = w
    · rw [differ]
    -- the two can be put in front of the others, in either order
    obtain ⟨rest, perm⟩ := exists_perm_cons_cons hv hw differ
    exact spaced_eq_of_swap (ignored kind _ perm) (ignored kind _ ((List.Perm.swap v w rest).trans perm)) same
  · intro uniform kind' others perm
    rw [uniqueKey_perm_iff keyed perm]
    intro k
    -- in a class all rows are the same, so any order of them is
    have any : ∀ rows : List Row, rows.Pairwise fun _ _ => True := fun _ => List.pairwise_of_forall fun _ _ => trivial
    refine ((perm.map row).filter _).eq_of_pairwise (fun r q hr hq _ _ => ?_) (any _) (any _)
    obtain ⟨v, hv, rfl⟩ := List.mem_map.1 (List.mem_of_mem_filter hr)
    obtain ⟨w, hw, rfl⟩ := List.mem_map.1 (List.mem_of_mem_filter hq)
    have hv : v ∈ items := perm.mem_iff.1 hv
    have firsts : v.row.1 = w.row.1 := by
      have left := (List.mem_filter.1 hr).2
      have right := (List.mem_filter.1 hq).2
      rw [beq_iff_eq] at left right
      rw [left, right]
    have texts := uniform v hv w hw
    rw [(written v hv).canonical, (written w hw).canonical, (written v hv).spaced, (written w hw).spaced] at texts
    exact Prod.ext firsts (Except.ok.inj (texts (congrArg _ firsts)))

end VaultSchema.Value
