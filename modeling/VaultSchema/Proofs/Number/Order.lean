import VaultSchema.Proofs.Number.Bounds
import VaultSchema.Proofs.Number.Equality

set_option autoImplicit false

namespace VaultSchema.Binary64

theorem spareBits_le_of_lt {n k : Nat} (small : n < 2 ^ (53 + k)) : spareBits n ≤ k := by
  rcases Nat.eq_zero_or_pos n with rfl | pos
  · exact Nat.zero_le _
  · have := (Nat.log2_lt pos.ne').2 small
    unfold spareBits
    omega

theorem roundHalfEven_multiple (n : Nat) {d : Nat} (pos : 0 < d) : roundHalfEven (n * d) d = n :=
  roundHalfEven_eq pos (by omega) (by omega) (by omega)

theorem roundUnits_multiple {units d : Nat} (double : Representable units) (pos : 0 < d) :
    roundUnits (units * d) d = units := by
  unfold roundUnits
  dsimp only
  rw [Nat.pow_eq, Nat.mul_div_cancel _ pos]
  obtain ⟨k, parts⟩ := double
  generalize spareBits units = s at *
  have whole : units * d = k * (d * 2 ^ s) := by rw [parts]; ring
  rw [whole, roundHalfEven_multiple _ (Nat.mul_pos pos (Nat.two_pow_pos s)), parts, Nat.mul_comm]

section nearness

variable {n k d : Nat}

theorem roundHalfEven_near (pos : 0 < d) :
    2 * n ≤ (2 * roundHalfEven n d + 1) * d ∧ 2 * (roundHalfEven n d * d) ≤ 2 * n + d := by
  have parts := Nat.div_add_mod n d
  have small := Nat.mod_lt n pos
  have expand (q : Nat) : (2 * q + 1) * d = 2 * (d * q) + d := by ring
  have turn (q : Nat) : (q + 1) * d = d * q + d := by ring
  rw [expand]
  unfold roundHalfEven
  dsimp only
  split
  · rw [Nat.mul_comm _ d]
    omega
  · split
    · rw [Nat.mul_add d, turn]
      omega
    · split
      · rw [Nat.mul_comm _ d]
        omega
      · rw [Nat.mul_add d, turn]
        omega

theorem roundHalfEven_mono (le : n ≤ k) (pos : 0 < d) : roundHalfEven n d ≤ roundHalfEven k d := by
  rcases Nat.eq_or_lt_of_le le with rfl | less
  · exact le_rfl
  · refine roundHalfEven_le ?_
    have near := (roundHalfEven_near (n := k) pos).1
    omega

theorem roundUnits_near (n : Nat) (pos : 0 < d) :
    2 * n ≤ (2 * roundUnits n d + 2 ^ spareBits (n / d)) * d ∧
      2 * (roundUnits n d * d) ≤ 2 * n + 2 ^ spareBits (n / d) * d := by
  unfold roundUnits
  dsimp only
  rw [Nat.pow_eq]
  generalize spareBits (n / d) = s
  obtain ⟨below, above⟩ := roundHalfEven_near (n := n) (Nat.mul_pos pos (Nat.two_pow_pos s))
  generalize roundHalfEven n (d * 2 ^ s) = m at *
  have first : (2 * (m * 2 ^ s) + 2 ^ s) * d = (2 * m + 1) * (d * 2 ^ s) := by ring
  have second : m * 2 ^ s * d = m * (d * 2 ^ s) := by ring
  have third : 2 ^ s * d = d * 2 ^ s := Nat.mul_comm _ _
  omega

theorem spareBits_roundUnits (n : Nat) (d : Nat) : spareBits (n / d) ≤ spareBits (roundUnits n d) := by
  have least := @le_significand n d
  unfold roundUnits
  dsimp only
  rw [Nat.pow_eq]
  generalize spareBits (n / d) = s at *
  rcases Nat.eq_zero_or_pos s with rfl | some
  · exact Nat.zero_le _
  · have large : 2 ^ (52 + s) ≤ roundHalfEven n (d * 2 ^ s) * 2 ^ s := by
      rw [Nat.pow_add]
      exact Nat.mul_le_mul_right _ (least some)
    have digits := (Nat.le_log2 (Nat.two_pow_pos _ |>.trans_le large).ne').2 large
    conv_rhs => unfold spareBits
    omega

theorem roundUnits_mono (le : n ≤ k) (pos : 0 < d) : roundUnits n d ≤ roundUnits k d := by
  rcases Nat.eq_or_lt_of_le le with rfl | less
  · exact le_rfl
  · -- The greater number is rounded to a double, beyond which the smaller one is not rounded.
    refine roundUnits_le (representable_roundUnits k d) ?_
    have near := (roundUnits_near k pos).1
    have wider := Nat.mul_le_mul_right d (Nat.pow_le_pow_right (show 0 < 2 by decide) (spareBits_roundUnits k d))
    rw [Nat.add_mul] at *
    omega

end nearness

theorem less_of_ranks {a b : Binary64} {x y : Int × Int} (first : a.rank? = some x) (second : b.rank? = some y) :
    a.less b = rankLess x y := by
  rw [less, first, second]

theorem exists_rank? {a : Binary64} (number : a ≠ .nan) : ∃ x, a.rank? = some x := by
  cases a with
  | nan => exact (number rfl).elim
  | infinite negative => cases negative <;> exact ⟨_, rfl⟩
  | finite negative units => exact ⟨_, rfl⟩

theorem equal_of_not_less {a b : Binary64} (number : a ≠ .nan) (other : b ≠ .nan) (notLess : a.less b = false)
    (notGreater : b.less a = false) : a.equal b = true := by
  obtain ⟨x, first⟩ := exists_rank? number
  obtain ⟨y, second⟩ := exists_rank? other
  rw [less_of_ranks first second] at notLess
  rw [less_of_ranks second first] at notGreater
  have same : x = y := by
    obtain ⟨i, j⟩ := x
    obtain ⟨k, l⟩ := y
    simp only [rankLess, Bool.or_eq_false_iff, Bool.and_eq_false_iff, decide_eq_false_iff_not, beq_eq_false_iff_ne,
      Prod.mk.injEq] at *
    omega
  rw [equal_iff, first, second, same]
  exact ⟨rfl, rfl⟩

theorem lessOrEqual_iff {a b : Binary64} : a.lessOrEqual b = true ↔
    ∃ x y, a.rank? = some x ∧ b.rank? = some y ∧ rankLess y x = false := by
  unfold lessOrEqual less equal
  cases a.rank? with
  | none => simp
  | some x =>
    cases b.rank? with
    | none => simp
    | some y =>
      obtain ⟨i, j⟩ := x
      obtain ⟨k, l⟩ := y
      simp [rankLess]
      omega

theorem lessOrEqual_of_not_less {a b c : Binary64} (le : a.lessOrEqual b = true) (number : c ≠ .nan) (order : c.less b = false) :
    a.lessOrEqual c = true := by
  obtain ⟨x, y, first, second, notLess⟩ := lessOrEqual_iff.1 le
  obtain ⟨z, third⟩ := exists_rank? number
  rw [less_of_ranks third second] at order
  refine lessOrEqual_iff.2 ⟨x, z, first, third, ?_⟩
  simp only [rankLess, Bool.or_eq_false_iff, Bool.and_eq_false_iff, decide_eq_false_iff_not, beq_eq_false_iff_ne] at *
  omega

def rankOf (limit : Nat) (negative : Bool) (units : Nat) : Int × Int :=
  if limit ≤ units then (if negative then -1 else 1, 0) else (0, signedUnits negative units)

theorem rank?_ofRatio (negative : Bool) (n d : Nat) :
    (ofRatio negative n d).rank? = some (rankOf overflowUnits negative (roundUnits (n * unit) d)) := by
  unfold ofRatio rankOf
  dsimp only
  split
  · cases negative <;> rfl
  · rfl

theorem not_rankLess {limit x y : Nat} {a b : Int} (le : a ≤ b) (negative : b < 0 → y ≤ x) (positive : 0 ≤ a → x ≤ y) :
    rankLess (rankOf limit (b < 0) y) (rankOf limit (a < 0) x) = false := by
  unfold rankOf rankLess signedUnits
  rcases Int.lt_or_le a 0 with below | since
  · rcases Int.lt_or_le b 0 with before | after
    · have order := negative before
      simp only [below, before, decide_true, if_true]
      split <;> split <;> simp <;> omega
    · simp only [below, Int.not_lt.2 after, decide_true, decide_false, if_true, Bool.false_eq_true, if_false]
      split <;> split <;> simp
  · have order := positive since
    simp only [Int.not_lt.2 since, Int.not_lt.2 (since.trans le), decide_false, Bool.false_eq_true, if_false]
    split <;> split <;> simp <;> omega

theorem not_less_ofRatio {a b : Int} {d : Nat} (le : a ≤ b) (pos : 0 < d) :
    (ofRatio (b < 0) b.natAbs d).less (ofRatio (a < 0) a.natAbs d) = false := by
  have order {x y : Nat} (le : x ≤ y) := roundUnits_mono (Nat.mul_le_mul_right unit le) pos
  rw [less_of_ranks (rank?_ofRatio _ _ _) (rank?_ofRatio _ _ _)]
  refine not_rankLess le (fun negative => order ?_) fun positive => order ?_
  · omega
  · omega

theorem roundToParts?_mono {x y : Binary64} {k : Nat} {i j : Int} (first : x.roundToParts? k = some i)
    (second : y.roundToParts? k = some j) (order : x.less y = false) : j ≤ i := by
  cases x with
  | nan => cases first
  | infinite s => cases first
  | finite s u =>
    cases y with
    | nan => cases second
    | infinite s => cases second
    | finite t v =>
      have order : signedUnits t v ≤ signedUnits s u := by
        rw [less_of_ranks rfl rfl] at order
        simpa [rankLess] using order
      cases first
      cases second
      have up {n m : Nat} (le : n ≤ m) :=
        roundHalfEven_mono (Nat.mul_le_mul_right k le) Decimal.Scientific.unit_pos
      unfold signedUnits at *
      cases s <;> cases t <;> simp only [if_true, Bool.false_eq_true, if_false] at *
      · have := up (show v ≤ u by omega)
        omega
      · omega
      · have none : roundHalfEven 0 unit = 0 := by decide +kernel
        obtain rfl : u = 0 := by omega
        obtain rfl : v = 0 := by omega
        simp [none]
      · have := up (show u ≤ v by omega)
        omega

end VaultSchema.Binary64
