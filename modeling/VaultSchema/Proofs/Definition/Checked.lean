import Mathlib
import VaultSchema.Definition.Reading

set_option autoImplicit false

namespace VaultSchema.Checked

variable {α β : Type}

@[simp] theorem map_eq_good {f : α → β} {x : Checked α} {b : β} : f <$> x = .good b ↔ ∃ a, x = .good a ∧ f a = b := by
  change map f x = _ ↔ _
  cases x <;> simp [map]

@[simp] theorem seq_eq_good {f : Checked (α → β)} {x : Checked α} {b : β} :
    f <*> x = .good b ↔ ∃ g a, f = .good g ∧ x = .good a ∧ g a = b := by
  change seq f (fun _ => x) = _ ↔ _
  cases f <;> cases x <;> simp [seq, map]

@[simp] theorem under_eq_good {step : PathStep} {x : Checked α} {a : α} : x.under step = .good a ↔ x = .good a := by
  cases x <;> simp [under]

theorem refine_eq_good {x : Checked α} {f : α → Checked β} {b : β} :
    x.refine f = .good b ↔ ∃ a, x = .good a ∧ f a = .good b := by
  cases x <;> simp [refine]

theorem mapping_eq_good {read : Entries → Checked α} {v : Value} {a : α} :
    mapping read v = .good a ↔ ∃ m, v = .mapping m ∧ read m = .good a := by
  cases v <;> simp [mapping, fail]

theorem go_eq_good {read : Value → Checked α} {items : List Value} {position : Nat} {as : List α}
    (made : each.go read position items = .good as) : ∀ a ∈ as, ∃ w, read w = .good a := by
  induction items generalizing position as with
  | nil =>
    cases made
    simp
  | cons w rest ih =>
    obtain ⟨g, others, first, further, rfl⟩ := seq_eq_good.1 made
    obtain ⟨a, own, rfl⟩ := map_eq_good.1 first
    have own := under_eq_good.1 own
    intro b mem
    rcases List.mem_cons.1 mem with rfl | mem
    · exact ⟨w, own⟩
    · exact ih further b mem

theorem list_eq_good {read : Value → Checked α} {v : Value} {as : List α} (made : list read v = .good as) :
    ∀ a ∈ as, ∃ w, read w = .good a := by
  cases v with
  | sequence kind items => exact go_eq_good made
  | _ => cases made

theorem optionalOf_eq_good {m : Entries} {keys : List String} {default a : α} {read : Value → Checked α}
    (made : optionalOf m keys default read = .good a) : a = default ∨ ∃ v, read v = .good a := by
  unfold optionalOf at made
  split at made
  · exact .inr ⟨_, under_eq_good.1 made⟩
  · cases made
    exact .inl rfl

theorem exists_of_mem {m : Entries} {keys : List String} {read : Entries → Checked α} {as : List α}
    (made : optionalOf m keys [] (list (mapping read)) = .good as) {a : α} (mem : a ∈ as) :
    ∃ n, read n = .good a := by
  rcases optionalOf_eq_good made with rfl | ⟨v, made⟩
  · cases mem
  · obtain ⟨w, own⟩ := list_eq_good made a mem
    obtain ⟨n, rfl, own⟩ := mapping_eq_good.1 own
    exact ⟨n, own⟩

theorem required_eq_good {m : Entries} {name : String} {a : α} {read : Value → Checked α}
    (made : required m name read = .good a) : ∃ v, read v = .good a := by
  unfold required at made
  split at made
  · exact ⟨_, under_eq_good.1 made⟩
  · cases made

theorem optionalOf_absent {m : Entries} {keys : List String} {default : α} {read : Value → Checked α}
    (absent : firstOf m keys = none) : optionalOf m keys default read = .good default := by
  simp [optionalOf, absent]

theorem optionalOf_found {m : Entries} {keys : List String} {k : String} {v : Value} {default a : α}
    {read : Value → Checked α} (found : firstOf m keys = some (k, v)) (own : read v = .good a) :
    optionalOf m keys default read = .good a := by
  simp [optionalOf, found, own]

/-- What is read depends on the entries only through the keys that are asked for. -/
theorem optionalOf_congr {m n : Entries} {keys : List String} {default : α} {read : Value → Checked α}
    (same : ∀ key ∈ keys, m.get? key = n.get? key) :
    optionalOf m keys default read = optionalOf n keys default read := by
  have first : firstOf m keys = firstOf n keys := by
    induction keys with
    | nil => rfl
    | cons k rest ih =>
      obtain ⟨own, others⟩ := List.forall_mem_cons.1 same
      simp only [firstOf, List.findSome?_cons, own]
      cases n.get? k with
      | none => exact ih others
      | some v => rfl
  rw [optionalOf, first, optionalOf]

theorem required_found {m : Entries} {name k : String} {v : Value} {a : α} {read : Value → Checked α}
    (found : firstOf m (spellings name) = some (k, v)) (own : read v = .good a) : required m name read = .good a := by
  simp [required, found, own]

end VaultSchema.Checked
