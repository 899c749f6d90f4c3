set_option autoImplicit false

namespace VaultSchema

structure Table (κ α : Type) where
  rows : List (κ × α) := []
  deriving DecidableEq, Repr

namespace Table

variable {κ α : Type} [DecidableEq κ]

def get? (t : Table κ α) (k : κ) : Option α := (t.rows.find? fun r => r.1 = k).map Prod.snd

def has (t : Table κ α) (k : κ) : Bool := (t.get? k).isSome

def keys (t : Table κ α) : List κ := t.rows.map Prod.fst

def values (t : Table κ α) : List α := t.rows.map Prod.snd

def size (t : Table κ α) : Nat := t.rows.length

/-- Rows with the value under a key replaced where it stands; a new key goes to the end. -/
def putRow (k : κ) (a : α) : List (κ × α) → List (κ × α)
  | [] => [(k, a)]
  | r :: rest => if r.1 = k then (k, a) :: rest else r :: putRow k a rest

def put (t : Table κ α) (k : κ) (a : α) : Table κ α := ⟨putRow k a t.rows⟩

def drop (t : Table κ α) (k : κ) : Table κ α := ⟨t.rows.filter fun r => r.1 ≠ k⟩

def keep (t : Table κ α) (p : κ → α → Bool) : Table κ α := ⟨t.rows.filter fun r => p r.1 r.2⟩

@[simp] theorem get?_empty (k : κ) : (⟨[]⟩ : Table κ α).get? k = none := rfl

theorem find?_putRow (k j : κ) (a : α) (rows : List (κ × α)) :
    (putRow k a rows).find? (fun r => r.1 = j) =
      if k = j then some (k, a) else rows.find? (fun r => r.1 = j) := by
  induction rows with
  | nil => by_cases h : k = j <;> simp [putRow, h]
  | cons r rest ih =>
    by_cases hr : r.1 = k
    · by_cases h : k = j <;> simp [putRow, hr, h]
    · by_cases h : k = j
      · subst h
        simp [putRow, hr, ih]
      · simp [putRow, hr, ih, h, List.find?_cons]

theorem get?_put (t : Table κ α) (k j : κ) (a : α) :
    (t.put k a).get? j = if k = j then some a else t.get? j := by
  simp only [get?, put, find?_putRow]
  by_cases h : k = j <;> simp [h]

theorem get?_drop (t : Table κ α) (k j : κ) :
    (t.drop k).get? j = if k = j then none else t.get? j := by
  simp only [get?, drop, List.find?_filter]
  by_cases h : k = j
  · subst h
    simp
  · simp only [h, if_false]
    congr 1
    congr 1
    funext r
    by_cases hj : r.1 = j
    · have : r.1 ≠ k := fun e => h (e.symm.trans hj)
      simp [hj, Ne.symm h]
    · simp [hj]

end Table

namespace Members

variable {α : Type} [BEq α]

def insert (xs : List α) (x : α) : List α := if xs.contains x then xs else xs ++ [x]

def same (xs ys : List α) : Bool := xs.all ys.contains && ys.all xs.contains

def without (xs ys : List α) : List α := xs.filter fun x => !ys.contains x

end Members
end VaultSchema
