import VaultSchema.Proofs.Json.Plain

/-! JSON text without line breaks. The level at which it is written does not matter, and it has as
many characters whether the members of mappings are sorted or stand as they were authored. -/

set_option autoImplicit false

namespace VaultSchema

@[elab_as_elim]
theorem Value.induct {motive : Value → Prop} (scalar : ∀ s, motive (.scalar s))
    (sequence : ∀ kind items, (∀ v ∈ items, motive v) → motive (.sequence kind items))
    (mapping : ∀ entries : Entries, (∀ e ∈ entries, motive e.2) → motive (.mapping entries)) (v : Value) :
    motive v :=
  match v with
  | .scalar s => scalar s
  | .sequence kind items => sequence kind items fun w _ => Value.induct scalar sequence mapping w
  | .mapping entries => mapping entries fun e _ => Value.induct scalar sequence mapping e.2
termination_by sizeOf v
decreasing_by
  · have inside := List.sizeOf_lt_of_mem ‹w ∈ items›
    simp only [Value.sequence.sizeOf_spec]
    omega
  · have inside := List.sizeOf_lt_of_mem ‹e ∈ entries›
    obtain ⟨key, value⟩ := e
    simp only [Value.mapping.sizeOf_spec, Prod.mk.sizeOf_spec] at inside ⊢
    omega

namespace Text

theorem length_intercalate (between : String) (texts : List String) : (between.intercalate texts).length =
    (texts.map String.length).sum + between.length * (texts.length - 1) := by
  induction texts with
  | nil => simp
  | cons first rest ih =>
    cases rest with
    | nil => simp
    | cons second rest =>
      rw [String.intercalate_cons_cons, String.length_append, String.length_append, ih]
      simp only [List.map_cons, List.sum_cons, List.length_cons, Nat.add_sub_cancel, Nat.mul_succ]
      omega

theorem append_inj {s t u v : String} (lengths : s.length = t.length) (same : s ++ u = t ++ v) : s = t ∧ u = v := by
  have lists := congrArg String.toList same
  rw [String.toList_append, String.toList_append] at lists
  obtain ⟨front, back⟩ := List.append_inj lists (by rwa [String.length_toList, String.length_toList])
  exact ⟨String.toList_inj.1 front, String.toList_inj.1 back⟩

theorem intercalate_inj {between : String} {xs ys : List String} (lengths : xs.map String.length = ys.map String.length)
    (same : between.intercalate xs = between.intercalate ys) : xs = ys := by
  induction xs generalizing ys with
  | nil => exact (List.map_eq_nil_iff.1 lengths.symm).symm
  | cons x xs ih =>
    cases ys with
    | nil => cases lengths
    | cons y ys =>
      rw [List.map_cons, List.map_cons, List.cons.injEq] at lengths
      cases xs with
      | nil =>
        obtain rfl := List.map_eq_nil_iff.1 lengths.2.symm
        simpa using same
      | cons x' xs =>
        cases ys with
        | nil => cases lengths.2
        | cons y' ys =>
          rw [String.intercalate_cons_cons, String.intercalate_cons_cons, String.append_assoc,
            String.append_assoc] at same
          obtain ⟨first, rest⟩ := append_inj lengths.1 same
          rw [first, ih lengths.2 (append_inj rfl rest).2]

end Text

namespace Json

variable {layout : Layout}

theorem enclose_flat (flat : layout.indent = none) (depth : Nat) (left right : String) (members : List String) :
    enclose layout depth left right members = left ++ layout.between.intercalate members ++ right := by
  unfold enclose
  rw [flat]
  cases members with
  | nil => simp
  | cons first rest => rfl

theorem writeAt_flat (flat : layout.indent = none) (depth : Nat) (v : Value) :
    writeAt layout depth v = write layout v := by
  induction v using Value.induct generalizing depth with
  | scalar s => rw [write, writeAt, writeAt]
  | sequence kind items ih =>
    have same : items.map (writeAt layout (depth + 1)) = items.map (writeAt layout 1) :=
      List.map_congr_left fun v mem => (ih v mem _).trans (ih v mem _).symm
    rw [write, writeAt, writeAt, writeItems_eq_map, writeItems_eq_map, same]
    simp only [enclose_flat flat]
  | mapping entries ih =>
    have same : entries.map (fun e => (e.1, writeAt layout (depth + 1) e.2)) =
        entries.map fun e => (e.1, writeAt layout 1 e.2) :=
      List.map_congr_left fun e mem => by rw [ih e mem, ih e mem]
    rw [write, writeAt_mapping, writeAt_mapping, writeEntries_eq_map, writeEntries_eq_map, same]
    simp only [enclose_flat flat]

theorem write_sequence_eq_ok (flat : layout.indent = none) {kind : SequenceKind} {items : List Value} {text : String} :
    write layout (.sequence kind items) = .ok text ↔ ∃ texts : List String,
      items.map (write layout) = texts.map .ok ∧ text = "[" ++ layout.between.intercalate texts ++ "]" := by
  rw [write, writeAt, writeItems_eq_map, List.map_congr_left fun v _ => writeAt_flat flat (0 + 1) v,
    Outcome.bind_eq_ok]
  simp only [collect_eq_ok_map, enclose_flat flat, pure, Except.pure, Except.ok.injEq]
  exact exists_congr fun texts => and_congr_right fun _ => eq_comm

/-- A mapping on one line, its members in whatever order. -/
theorem write_mapping (flat : layout.indent = none) {entries : Entries} {text : String}
    (written : write layout (.mapping entries) = .ok text) : ∃ lines : List String,
      (lines.map .ok).Perm (entries.map fun e => memberText layout (e.1, write layout e.2)) ∧
      text = "\x7b" ++ layout.between.intercalate lines ++ "\x7d" := by
  rw [write, writeAt_mapping] at written
  obtain ⟨members, order, written⟩ := Outcome.bind_eq_ok.1 written
  obtain ⟨lines, all, done⟩ := Outcome.bind_eq_ok.1 written
  have perm : members.Perm (writeEntries layout (0 + 1) entries) := by
    split at order
    · unfold sortMembers at order
      split at order
      · cases order
        exact List.mergeSort_perm _ _
      · cases order
    · cases order
      exact List.Perm.refl _
  refine ⟨lines, ?_, ?_⟩
  · rw [← collect_eq_ok_map.1 all]
    refine (perm.map _).trans (List.Perm.of_eq ?_)
    rw [writeEntries_eq_map, List.map_map]
    refine List.map_congr_left fun e _ => ?_
    rw [Function.comp, writeAt_flat flat]
  · rw [enclose_flat flat] at done
    exact (Except.ok.inj done).symm

def width : Except ValueFault String → Nat
  | .ok text => text.length
  | .error _ => 0

theorem map_width (texts : List String) : (texts.map Except.ok).map width = texts.map String.length := by
  rw [List.map_map]
  rfl

theorem length_intercalate_perm {xs ys : List String} (perm : (xs.map String.length).Perm (ys.map String.length))
    (between : String) : (between.intercalate xs).length = (between.intercalate ys).length := by
  rw [Text.length_intercalate, Text.length_intercalate, perm.sum_eq]
  have lengths := perm.length_eq
  rw [List.length_map, List.length_map] at lengths
  rw [lengths]

theorem width_memberText {e : Scalar × Value} {canonical spaced : String}
    (sorted : memberText .canonical (e.1, write .canonical e.2) = .ok canonical)
    (authored : memberText .spaced (e.1, write .spaced e.2) = .ok spaced)
    (same : ∀ c s, write .canonical e.2 = .ok c → write .spaced e.2 = .ok s → c.length = s.length) :
    canonical.length = spaced.length := by
  obtain ⟨key, spelt, sorted⟩ := Outcome.bind_eq_ok.1 sorted
  obtain ⟨c, writtenSorted, sorted⟩ := Outcome.bind_eq_ok.1 sorted
  obtain ⟨key', spelt', authored⟩ := Outcome.bind_eq_ok.1 authored
  obtain ⟨s, writtenAuthored, authored⟩ := Outcome.bind_eq_ok.1 authored
  obtain rfl : key = key' := Except.ok.inj (spelt.symm.trans spelt')
  cases sorted
  cases authored
  simp only [String.length_append, same c s writtenSorted writtenAuthored]
  rfl

/-- Sorting members changes no length. -/
theorem length_write {v : Value} : ∀ {canonical spaced : String}, write .canonical v = .ok canonical →
    write .spaced v = .ok spaced → canonical.length = spaced.length := by
  induction v using Value.induct with
  | scalar s =>
    intro canonical spaced sorted authored
    rw [write, writeAt] at sorted authored
    rw [Except.ok.inj (sorted.symm.trans authored)]
  | sequence kind items ih =>
    intro canonical spaced sorted authored
    obtain ⟨cs, hcs, rfl⟩ := (write_sequence_eq_ok rfl).1 sorted
    obtain ⟨ss, hss, rfl⟩ := (write_sequence_eq_ok rfl).1 authored
    have lengths : cs.map String.length = ss.map String.length := by
      rw [← map_width, ← map_width, ← hcs, ← hss, List.map_map, List.map_map]
      refine List.map_congr_left fun v mem => ?_
      obtain ⟨c, _, hc⟩ := List.mem_map.1 (hcs ▸ List.mem_map_of_mem mem : write .canonical v ∈ cs.map .ok)
      obtain ⟨s, _, hs⟩ := List.mem_map.1 (hss ▸ List.mem_map_of_mem mem : write .spaced v ∈ ss.map .ok)
      rw [Function.comp, Function.comp, ← hc, ← hs]
      exact ih v mem hc.symm hs.symm
    simp only [String.length_append]
    rw [length_intercalate_perm (List.Perm.of_eq lengths)]
    rfl
  | mapping entries ih =>
    intro canonical spaced sorted authored
    obtain ⟨cs, hcs, rfl⟩ := write_mapping rfl sorted
    obtain ⟨ss, hss, rfl⟩ := write_mapping rfl authored
    -- Each member is as long either way; sorting only changes their places.
    have lengths : (cs.map String.length).Perm (ss.map String.length) := by
      rw [← map_width, ← map_width]
      refine (hcs.map width).trans (List.Perm.trans (List.Perm.of_eq ?_) (hss.map width).symm)
      rw [List.map_map, List.map_map]
      refine List.map_congr_left fun e mem => ?_
      obtain ⟨c, _, hc⟩ := List.mem_map.1 (hcs.mem_iff.2 (List.mem_map_of_mem mem))
      obtain ⟨s, _, hs⟩ := List.mem_map.1 (hss.mem_iff.2 (List.mem_map_of_mem mem))
      rw [Function.comp, Function.comp, ← hc, ← hs]
      exact width_memberText hc.symm hs.symm fun _ _ => ih e mem
    simp only [String.length_append]
    rw [length_intercalate_perm lengths]
    rfl

theorem sortMembers_swap {α : Type} {s t : String} (less : s < t) (a b : α) :
    sortMembers [(.text t, b), (.text s, a)] = sortMembers [(.text s, a), (.text t, b)] := by
  have before : keyLess (.text s) (.text t) = true := decide_eq_true less
  have after : keyLess (.text t) (.text s) = false := decide_eq_false (lt_asymm less)
  simp [sortMembers, isTextKey, List.mergeSort, before, after]

theorem write_canonical_swap {s t : String} (less : s < t) (a b : Value) :
    write .canonical (.mapping [(.text t, b), (.text s, a)]) =
      write .canonical (.mapping [(.text s, a), (.text t, b)]) := by
  rw [write, write, writeAt_mapping, writeAt_mapping]
  simp only [writeEntries, Layout.canonical, if_true, sortMembers_swap less]

end Json
end VaultSchema
