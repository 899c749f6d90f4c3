import VaultSchema.Proofs.Report.Series
import Mathlib.Logic.Function.Iterate

/-! When listeners are notified. Work asks to notify when it may have changed something. Outside of
batches it notifies at once. Within a batch it leaves a debt, which is paid as the outermost batch
ends. -/

set_option autoImplicit false

namespace VaultSchema.ViolationStore

/-- Some work asks to notify: it found something to remove, or it writes without looking. -/
def Asks (s : ViolationStore) : ViolationWork → Prop
  | .added vs => vs ≠ []
  | .schemaSet .. | .fieldReplaced .. | .cleared => True
  | .noteRemoved id | .renamed id _ => s.byNote.has id = true
  | .noteSchemaRemoved id schema => ∃ v ∈ s.ofNote id, v.schema = schema
  | .schemaRemoved schema => ∃ v ∈ s.all .all, v.schema = schema
  | .kindRemoved schema kind => ∃ v ∈ s.all .all, v.schema = schema ∧ v.kind = kind
  | .marked | .batchBegun | .batchEnded => False

def AsksIn (s : ViolationStore) : List ViolationWork → Prop
  | [] => False
  | w :: rest => s.Asks w ∨ (s.act w).AsksIn rest

/-- A batch is open all through a series of work. -/
def StaysOpen (s : ViolationStore) : List ViolationWork → Prop
  | [] => 0 < s.depth
  | w :: rest => 0 < s.depth ∧ (s.act w).StaysOpen rest

/-- Outside of batches nothing is owed. -/
def Paid (s : ViolationStore) : Prop := s.depth = 0 → s.owed = false

variable {s : ViolationStore} {w : ViolationWork}

theorem foldl_addOne (vs : List Violation) (s : ViolationStore) : ∃ byNote, vs.foldl addOne s = { s with byNote } := by
  induction vs generalizing s with
  | nil => exact ⟨s.byNote, rfl⟩
  | cons v vs ih => exact ih (s.addOne v)

theorem removeWhere_of_any {p : Violation → Bool} (some : ∃ v ∈ s.all .all, p v = true) :
    ∃ byNote, s.removeWhere p = notify { s with byNote } := by
  obtain ⟨v, mem, holds⟩ := some
  obtain ⟨vs, row, mem⟩ := List.mem_flatten.1 (List.mem_of_mem_filter mem)
  unfold removeWhere
  rw [if_pos (List.any_eq_true.2 ⟨vs, row, List.any_eq_true.2 ⟨v, mem, holds⟩⟩)]
  exact ⟨_, rfl⟩

theorem removeWhere_of_none {p : Violation → Bool} (none : ¬ ∃ v ∈ s.all .all, p v = true) :
    s.removeWhere p = s := by
  unfold removeWhere
  rw [if_neg]
  intro some
  obtain ⟨vs, row, some⟩ := List.any_eq_true.1 some
  obtain ⟨v, mem, holds⟩ := List.any_eq_true.1 some
  exact none ⟨v, List.mem_filter.2 ⟨List.mem_flatten.2 ⟨vs, row, mem⟩, rfl⟩, holds⟩

theorem act_of_asks (asks : s.Asks w) : ∃ byNote, s.act w = notify { s with byNote } := by
  cases w with
  | added vs =>
    obtain ⟨byNote, done⟩ := foldl_addOne vs s
    refine ⟨byNote, ?_⟩
    rw [act, add, if_neg (by simpa [Asks] using asks), done]
  | schemaSet | fieldReplaced | cleared => exact ⟨_, rfl⟩
  | noteRemoved id =>
    rw [act, removeNote, if_pos (show s.byNote.has id = true from asks)]
    exact ⟨_, rfl⟩
  | noteSchemaRemoved id schema =>
    rw [act, removeNoteSchema, if_pos (by simpa [Asks] using asks)]
    exact ⟨_, rfl⟩
  | schemaRemoved schema => exact removeWhere_of_any (by simpa [Asks] using asks)
  | kindRemoved schema kind => exact removeWhere_of_any (by simpa [Asks] using asks)
  | renamed old new =>
    rw [act, rename]
    obtain ⟨vs, row⟩ := Option.isSome_iff_exists.1 asks
    rw [row]
    exact ⟨_, rfl⟩
  | marked | batchBegun | batchEnded => exact asks.elim

theorem act_of_quiet (quiet : ¬ s.Asks w) (plain : w.Plain) : s.act w = s := by
  cases w with
  | added vs => rw [act, add, if_pos (by simpa [Asks] using quiet)]
  | schemaSet | fieldReplaced | cleared => exact (quiet trivial).elim
  | noteRemoved id => rw [act, removeNote, if_neg (show ¬ s.byNote.has id = true from quiet)]
  | noteSchemaRemoved id schema => rw [act, removeNoteSchema, if_neg (by simpa [Asks] using quiet)]
  | schemaRemoved schema => exact removeWhere_of_none (by simpa [Asks] using quiet)
  | kindRemoved schema kind => exact removeWhere_of_none (by simpa [Asks] using quiet)
  | renamed old new => rw [act, rename, Option.not_isSome_iff_eq_none.1 quiet]
  | marked | batchBegun | batchEnded => exact plain.elim

theorem act_of_not_asks (quiet : ¬ s.Asks w) :
    (w = .batchBegun ∨ w = .batchEnded) ∨ ∃ marked, s.act w = { s with marked } := by
  cases w with
  | marked => exact Or.inr ⟨true, rfl⟩
  | batchBegun => exact Or.inl (Or.inl rfl)
  | batchEnded => exact Or.inl (Or.inr rfl)
  | _ => exact Or.inr ⟨s.marked, act_of_quiet quiet trivial⟩

theorem notify_open (opened : 0 < s.depth) : s.notify = { s with owed := true } := if_pos opened

theorem notify_closed (closed : s.depth = 0) : s.notify = { s with listeners := s.listeners.map Listener.notify } :=
  if_neg (by omega)

theorem endBatch_outermost (outermost : s.depth = 1) : s.endBatch =
    { s with
      depth := 0
      owed := false
      listeners := if s.owed then s.listeners.map Listener.notify else s.listeners } := by
  obtain ⟨byNote, listeners, depth, owed, marked⟩ := s
  subst outermost
  cases owed <;> rfl

theorem endBatch_inner {n : Nat} (inner : s.depth = n + 2) : s.endBatch = { s with depth := n + 1 } := by
  unfold endBatch
  rw [inner]

theorem endBatch_unmatched (none : s.depth = 0) : s.endBatch = s := by
  unfold endBatch
  rw [none]

/-- The ways in which a step can go. Only two of them call the listeners, and both come out of all batches. -/
inductive Went (s : ViolationStore) (w : ViolationWork) : ViolationStore → Prop where
  | told (asks : s.Asks w) (none : s.depth = 0) (byNote : Table String (List Violation)) :
    Went s w { s with byNote, listeners := s.listeners.map Listener.notify }
  | noted (asks : s.Asks w) (some : 0 < s.depth) (byNote : Table String (List Violation)) :
    Went s w { s with byNote, owed := true }
  | passed (quiet : ¬ s.Asks w) (marked : Bool) : Went s w { s with marked }
  | opened (quiet : ¬ s.Asks w) : Went s w { s with depth := s.depth + 1 }
  | inner (quiet : ¬ s.Asks w) (n : Nat) (more : s.depth = n + 2) : Went s w { s with depth := n + 1 }
  | closed (quiet : ¬ s.Asks w) (outermost : s.depth = 1) : Went s w
    { s with
      depth := 0
      owed := false
      listeners := if s.owed then s.listeners.map Listener.notify else s.listeners }

theorem went_endBatch (s : ViolationStore) : Went s .batchEnded s.endBatch := by
  match depth : s.depth with
  | 0 =>
    rw [endBatch_unmatched depth]
    exact .passed id s.marked
  | 1 =>
    rw [endBatch_outermost depth]
    exact .closed id depth
  | n + 2 =>
    rw [endBatch_inner depth]
    exact .inner id n depth

theorem went (s : ViolationStore) (w : ViolationWork) : Went s w (s.act w) := by
  by_cases asks : s.Asks w
  · obtain ⟨byNote, done⟩ := act_of_asks asks
    rw [done]
    rcases Nat.eq_zero_or_pos s.depth with none | some
    · rw [notify_closed (show ({ s with byNote } : ViolationStore).depth = 0 from none)]
      exact .told asks none byNote
    · rw [notify_open (show 0 < ({ s with byNote } : ViolationStore).depth from some)]
      exact .noted asks some byNote
  · rcases act_of_not_asks asks with (rfl | rfl) | ⟨marked, done⟩
    · exact .opened asks
    · exact went_endBatch s
    · rw [done]
      exact .passed asks marked

namespace Went

variable {t : ViolationStore}

theorem asks_of_changed (h : Went s w t) (changed : t.byNote ≠ s.byNote) : s.Asks w := by
  cases h with
  | told asks | noted asks => exact asks
  | passed | opened | inner | closed => exact (changed rfl).elim

theorem silent (h : Went s w t) (some : 0 < t.depth) : t.listeners = s.listeners := by
  cases h with
  | told _ none => exact absurd some (by simp [none])
  | noted | passed | opened | inner => rfl
  | closed => cases some

theorem listeners (h : Went s w t) : ∃ n, t.listeners = s.listeners.map Listener.notify^[n] := by
  have none : s.listeners = s.listeners.map Listener.notify^[0] := (List.map_id _).symm
  cases h with
  | told => exact ⟨1, rfl⟩
  | noted | passed | opened | inner => exact ⟨0, none⟩
  | closed => cases s.owed with
    | true => exact ⟨1, rfl⟩
    | false => exact ⟨0, none⟩

theorem told_iff (h : Went s w t) (none : s.depth = 0) :
    (s.Asks w → t.listeners = s.listeners.map Listener.notify) ∧ (¬ s.Asks w → t.listeners = s.listeners) := by
  cases h with
  | told asks => exact ⟨fun _ => rfl, fun quiet => (quiet asks).elim⟩
  | noted _ some => omega
  | passed quiet | opened quiet | inner quiet => exact ⟨fun asks => (quiet asks).elim, fun _ => rfl⟩
  | closed _ outermost => omega

theorem paid (h : Went s w t) (paid : s.Paid) : t.Paid := by
  cases h with
  | told | passed => exact paid
  | noted _ some => exact fun none => absurd some (by simp [show s.depth = 0 from none])
  | opened | inner => exact fun none => nomatch none
  | closed => exact fun _ => rfl

theorem owed_iff (h : Went s w t) (some : 0 < t.depth) : t.owed = true ↔ s.owed = true ∨ s.Asks w := by
  cases h with
  | told _ none => exact absurd some (by simp [none])
  | noted asks => simp [asks]
  | passed quiet | opened quiet | inner quiet => simp [quiet]
  | closed => cases some

/-- What is due is owed from now on, or the listeners are called. -/
theorem owed_or_told (h : Went s w t) (due : s.owed = true ∨ s.Asks w) :
    t.owed = true ∨ t.listeners = s.listeners.map Listener.notify := by
  cases h with
  | told => exact Or.inr rfl
  | noted => exact Or.inl rfl
  | passed quiet | opened quiet | inner quiet => exact Or.inl (due.resolve_right quiet)
  | closed quiet => exact Or.inr (if_pos (due.resolve_right quiet))

end Went

theorem StaysOpen.some {work : List ViolationWork} (h : s.StaysOpen work) : 0 < s.depth := by
  cases work with
  | nil => exact h
  | cons => exact h.1

theorem StaysOpen.run {work : List ViolationWork} (h : s.StaysOpen work) :
    (s.run work).listeners = s.listeners ∧ ((s.run work).owed = true ↔ s.owed = true ∨ s.AsksIn work) := by
  -- As long as the batch is open, each step only adds to what is owed.
  induction work generalizing s with
  | nil => exact ⟨rfl, by simp [ViolationStore.run, AsksIn]⟩
  | cons w rest ih =>
    obtain ⟨same, owed⟩ := ih h.2
    have went := s.went w
    exact ⟨same.trans (went.silent h.2.some), by
      rw [show s.run (w :: rest) = (s.act w).run rest from rfl, owed, went.owed_iff h.2.some, AsksIn, or_assoc]⟩

theorem paid_run (h : s.Paid) (work : List ViolationWork) : (s.run work).Paid := by
  induction work generalizing s with
  | nil => exact h
  | cons w rest ih => exact ih ((s.went w).paid h)

theorem listeners_trans {t u : ViolationStore} {m n : Nat} (first : t.listeners = s.listeners.map Listener.notify^[m])
    (later : u.listeners = t.listeners.map Listener.notify^[n]) :
    u.listeners = s.listeners.map Listener.notify^[n + m] := by
  rw [later, first, List.map_map, Function.iterate_add]

theorem listeners_run (s : ViolationStore) (work : List ViolationWork) :
    ∃ n, (s.run work).listeners = s.listeners.map Listener.notify^[n] := by
  induction work generalizing s with
  | nil => exact ⟨0, (List.map_id _).symm⟩
  | cons w rest ih =>
    obtain ⟨n, later⟩ := ih (s.act w)
    obtain ⟨m, first⟩ := (s.went w).listeners
    exact ⟨n + m, listeners_trans first later⟩

theorem run_of_due {work : List ViolationWork} (due : s.owed = true ∨ s.AsksIn work) : (s.run work).owed = true ∨
    ∃ n, 0 < n ∧ (s.run work).listeners = s.listeners.map Listener.notify^[n] := by
  induction work generalizing s with
  | nil => exact Or.inl (due.resolve_right id)
  | cons w rest ih =>
    have rest_due : (s.act w).listeners = s.listeners.map Listener.notify^[1] ∨
        (s.act w).owed = true ∨ (s.act w).AsksIn rest := by
      rcases or_assoc.2 due with now | later
      · exact ((s.went w).owed_or_told now).symm.imp_right Or.inl
      · exact Or.inr (Or.inr later)
    rcases rest_due with told | due
    · obtain ⟨n, later⟩ := listeners_run (s.act w) rest
      exact Or.inr ⟨n + 1, n.succ_pos, listeners_trans told later⟩
    · refine (ih due).imp_right ?_
      rintro ⟨n, some, later⟩
      obtain ⟨m, first⟩ := (s.went w).listeners
      exact ⟨n + m, by omega, listeners_trans first later⟩

/-- What listeners are told, whatever is done to a store next. -/
structure Told (s : ViolationStore) : Prop where
  silent : ∀ w, 0 < (s.act w).depth → (s.act w).listeners = s.listeners
  atOnce : ∀ w, s.depth = 0 → (s.Asks w → (s.act w).listeners = s.listeners.map Listener.notify) ∧
    (¬ s.Asks w → (s.act w).listeners = s.listeners)
  closing : ∀ body, s.depth = 0 → s.beginBatch.StaysOpen body → (s.beginBatch.run body).depth = 1 →
    (s.beginBatch.run body).listeners = s.listeners ∧
    (s.beginBatch.AsksIn body → (s.beginBatch.run body).endBatch.listeners = s.listeners.map Listener.notify) ∧
    (¬ s.beginBatch.AsksIn body → (s.beginBatch.run body).endBatch.listeners = s.listeners)
  caughtUp : ∀ w rest, (s.act w).byNote ≠ s.byNote → (s.run (w :: rest)).depth = 0 →
    ∃ n, 0 < n ∧ (s.run (w :: rest)).listeners = s.listeners.map Listener.notify^[n]

theorem Paid.closing (h : s.Paid) {body : List ViolationWork} (none : s.depth = 0)
    (opened : s.beginBatch.StaysOpen body) (last : (s.beginBatch.run body).depth = 1) :
    (s.beginBatch.run body).listeners = s.listeners ∧
    (s.beginBatch.AsksIn body → (s.beginBatch.run body).endBatch.listeners = s.listeners.map Listener.notify) ∧
    (¬ s.beginBatch.AsksIn body → (s.beginBatch.run body).endBatch.listeners = s.listeners) := by
  obtain ⟨same, owed⟩ := opened.run
  have same : (s.beginBatch.run body).listeners = s.listeners := same
  have owed : (s.beginBatch.run body).owed = true ↔ s.beginBatch.AsksIn body := by
    rw [owed, show s.beginBatch.owed = s.owed from rfl, h none]
    simp
  rw [endBatch_outermost last]
  dsimp only
  rw [same]
  exact ⟨rfl, fun asks => if_pos (owed.2 asks), fun quiet => if_neg (mt owed.1 quiet)⟩

theorem Paid.caughtUp (h : s.Paid) {rest : List ViolationWork} (changed : (s.act w).byNote ≠ s.byNote)
    (none : (s.run (w :: rest)).depth = 0) :
    ∃ n, 0 < n ∧ (s.run (w :: rest)).listeners = s.listeners.map Listener.notify^[n] := by
  have asks : s.AsksIn (w :: rest) := Or.inl ((s.went w).asks_of_changed changed)
  refine (run_of_due (Or.inr asks)).resolve_left ?_
  rw [paid_run h (w :: rest) none]
  exact Bool.false_ne_true

/-- After any series of work on a store, in batches or not, listeners miss no change and are not called
amid a batch. -/
theorem listeners_told (listeners : List Listener) (before : List ViolationWork) :
    (run { listeners } before).Told := by
  have paid := paid_run (s := { listeners }) (fun _ => rfl) before
  exact {
    silent := fun w => (went _ w).silent
    atOnce := fun w => (went _ w).told_iff
    closing := fun _ => paid.closing
    caughtUp := fun _ _ => paid.caughtUp }

/-- One call for all that is done in nested batches. The last end is one too many. -/
example : (run { listeners := [{}] } [.batchBegun, .schemaSet "Dune.md" "books" [], .batchBegun, .cleared,
    .batchEnded, .noteRemoved "Dune.md", .batchEnded, .batchEnded]).listeners = [{ calls := 1 }] := by decide

end VaultSchema.ViolationStore
