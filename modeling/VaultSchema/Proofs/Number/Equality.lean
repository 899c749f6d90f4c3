import VaultSchema.Note.Document

set_option autoImplicit false

namespace VaultSchema

namespace Binary64

theorem equal_iff {a b : Binary64} : a.equal b = true ↔ a.rank?.isSome ∧ a.rank? = b.rank? := by
  unfold equal
  cases a.rank? <;> cases b.rank? <;> simp

theorem equal_trans {a b c : Binary64} (h : a.equal b = true) (g : b.equal c = true) :
    a.equal c = true := by
  rw [equal_iff] at *
  exact ⟨h.1, h.2.trans g.2⟩

theorem equal_symm {a b : Binary64} (h : a.equal b = true) : b.equal a = true := by
  rwa [equal_comm]

theorem equal_self {a : Binary64} (number : a ≠ .nan) : a.equal a = true := by
  rw [equal_iff]
  refine ⟨?_, rfl⟩
  cases a with
  | nan => exact (number rfl).elim
  | infinite negative => cases negative <;> rfl
  | finite negative units => rfl

theorem ofRatio_ne_nan (negative : Bool) (n d : Nat) : ofRatio negative n d ≠ .nan := by
  unfold ofRatio
  dsimp only
  split <;> simp

end Binary64

theorem Document.mtime_ne_nan (d : Document) : d.mtime ≠ .nan := by
  unfold mtime
  cases d.modified with
  | none => simp [Binary64.zero]
  | some m =>
    rw [Option.map_some, Option.getD_some, Moment.timestamp, Moment.secondsOfMicros]
    exact Binary64.ofRatio_ne_nan _ _ _

theorem Document.mtime_equal_self (d : Document) : d.mtime.equal d.mtime = true :=
  Binary64.equal_self d.mtime_ne_nan

end VaultSchema
