import Mathlib
import VaultSchema.Proofs.Schema.Constraint
import VaultSchema.Proofs.Schema.Groups
import VaultSchema.Proofs.Schema.Reach

set_option autoImplicit false

namespace VaultSchema

/-- The same declarations in another order, in which those of one name follow each other as before. -/
def FieldSpec.Reordered (fields others : List FieldSpec) : Prop :=
  ∀ name, fields.filter (·.name == name) = others.filter (·.name == name)

theorem FieldSpec.Reordered.perm {fields others : List FieldSpec} (order : FieldSpec.Reordered fields others) :
    fields.Perm others := by
  rw [List.perm_iff_count]
  intro f
  have own := congrArg (List.count f) (order f.name)
  rwa [List.count_filter (by simp), List.count_filter (by simp)] at own

theorem FieldGroup.ofFields_perm {fields others : List FieldSpec} (order : FieldSpec.Reordered fields others) :
    (FieldGroup.ofFields fields).Perm (FieldGroup.ofFields others) := by
  have names := Text.distinct_perm (order.perm.map (·.name))
  unfold FieldGroup.ofFields
  simp only [order _]
  exact names.map _

/-- No two keys of a mapping are spelt alike, in whatever case. -/
def Entries.CaseFree (m : Entries) : Prop :=
  m.Pairwise fun a b => ∀ x y, a.1.spelling = .ok x → b.1.spelling = .ok y → Text.lower x ≠ Text.lower y

namespace FoldedKeys

def folded (e : Scalar × Value) : Except ValueFault (String × Scalar × Value) := do
  return (Text.lower (← e.1.spelling), e.1, e.2)

theorem folded_eq_ok {e : Scalar × Value} {p : String × Scalar × Value} :
    folded e = .ok p ↔ ∃ name, e.1.spelling = .ok name ∧ p = (Text.lower name, e) := by
  unfold folded
  rw [Outcome.bind_eq_ok]
  exact exists_congr fun name => and_congr_right fun _ => by simp [pure, Except.pure, eq_comm]

theorem ofEntries_eq_mapM (m : Entries) : ofEntries m = m.mapM folded >>= fun l => .ok ⟨l⟩ := by
  induction m with
  | nil => rfl
  | cons e rest ih =>
    obtain ⟨key, value⟩ := e
    rw [ofEntries, ih, List.mapM_cons, folded]
    cases key.spelling with
    | error f => rfl
    | ok name => cases rest.mapM folded <;> rfl

theorem distinct_of_caseFree {m : Entries} (free : m.CaseFree) {l : List (String × Scalar × Value)}
    (made : m.mapM folded = .ok l) : (l.map (·.1)).Nodup := by
  have pairs := Outcome.mapM_eq_ok_iff.1 made
  clear made
  induction pairs with
  | nil => exact List.nodup_nil
  | @cons e p m l first rest ih =>
    obtain ⟨apart, free⟩ := List.pairwise_cons.1 free
    rw [List.map_cons, List.nodup_cons]
    refine ⟨fun twice => ?_, ih free⟩
    obtain ⟨other, inside, same⟩ := List.mem_map.1 twice
    obtain ⟨name, spelt, rfl⟩ := folded_eq_ok.1 first
    obtain ⟨e', mem, made⟩ := Outcome.partner_left rest inside
    obtain ⟨name', spelt', rfl⟩ := folded_eq_ok.1 made
    exact apart e' mem name name' spelt spelt' same.symm

/-- In another order, keys that differ in more than case give every name the same value. -/
theorem alike_of_perm {l r : List (String × Scalar × Value)} (distinct : (l.map (·.1)).Nodup) (perm : l.Perm r) :
    Alike ⟨l⟩ ⟨r⟩ := by
  intro name
  have same : l.find? (·.1 == Text.lower name) = r.find? (·.1 == Text.lower name) := by
    refine List.find?_eq_find?_of_perm perm ?_
    rintro p ⟨mem, found⟩ q ⟨mem', found'⟩
    exact List.inj_on_of_nodup_map distinct mem mem' ((beq_iff_eq.1 found).trans (beq_iff_eq.1 found').symm)
  unfold value? find?
  rw [same]

theorem ofEntries_perm {m others : Entries} (free : m.CaseFree) (perm : m.Perm others) :
    Outcome.Related Alike (ofEntries m) (ofEntries others) := by
  rw [ofEntries_eq_mapM, ofEntries_eq_mapM]
  exact (Outcome.related_mapM perm).bind fun l r made order =>
    .ok (alike_of_perm (distinct_of_caseFree free made) order)

end FoldedKeys

namespace Registry

variable {s : Schema} {others : List FieldSpec} {m : Entries}

theorem undeclaredKeys_perm (order : FieldSpec.Reordered s.fields others) {n : Entries} (perm : m.Perm n) :
    Outcome.Related List.Perm (undeclaredKeys s m) (undeclaredKeys { s with fields := others } n) := by
  have declares : ∀ name, { s with fields := others : Schema }.declares name = s.declares name :=
    fun _ => order.perm.symm.any_eq
  refine (Outcome.related_mapM (perm.filter _)).bind fun names again _ same => ?_
  simp only [declares]
  exact .ok ((same.filter _).map _)

/-- Declarations of different names and keys that differ in more than case may change places: the note is
validated as before, with the same violations in another order, or with a fault in both orders. -/
theorem validate_order (r : Registry) (order : FieldSpec.Reordered s.fields others) (note again : Option Entries)
    (perm : (note.getD []).Perm (again.getD [])) (free : (note.getD []).CaseFree) (document : String)
    (checkUnknown : Bool) :
    Outcome.Related List.Perm (r.validate document note s checkUnknown)
      (r.validate document again { s with fields := others } checkUnknown) := by
  have groups : ∀ top seen : FoldedKeys, top.Alike seen →
      Outcome.Related List.Perm (s.groups.mapM (r.groupFindings top))
        (({ s with fields := others } : Schema).groups.mapM (r.groupFindings seen)) := by
    intro top seen alike
    have same : s.groups.mapM (r.groupFindings top) = s.groups.mapM (r.groupFindings seen) :=
      Outcome.mapM_congr fun g group => groupFindings_congr (fun _ _ => rfl) alike group
    rw [same]
    exact Outcome.related_mapM (FieldGroup.ofFields_perm order)
  refine Outcome.Related.bind (R := List.Perm) ?_ fun _ _ _ perm => .ok (perm.map _)
  refine ((FoldedKeys.ofEntries_perm free perm).mapError _).bind fun top seen _ alike => ?_
  refine (groups top seen alike).bind fun _ _ _ declared => ?_
  cases checkUnknown with
  | true => exact (undeclaredKeys_perm order perm).bind fun _ _ _ unknown => .ok (declared.flatten.append unknown)
  | false => exact .ok (declared.flatten.append .rfl)

/-- Loans, which are due on a day or at an occasion. -/
def loans : Schema where
  id := "loans"
  query := "#loan"
  fields := [
    { name := "due", type := .primitive .date },
    { name := "borrower", type := .primitive .string, required := true },
    { name := "due", type := .primitive .string }]

def loansByBorrower : Schema := { loans with fields := [loans.fields[1], loans.fields[0], loans.fields[2]] }

theorem loans_reordered : FieldSpec.Reordered loans.fields loansByBorrower.fields := by
  intro name
  by_cases due : "due" = name
  · subst due
    rfl
  · simp [loans, loansByBorrower, List.filter_cons, due]

def lent : Entries := [(.text "Due", .int 0), (.text "shelf", .text "B3")]

theorem lent_caseFree : Entries.CaseFree lent := by
  refine List.pairwise_pair.2 fun x y first second => ?_
  cases first
  cases second
  decide

theorem validate_order_lent :
    FieldSpec.Reordered loans.fields loansByBorrower.fields ∧ lent.Perm lent.reverse ∧ lent.CaseFree ∧
      ∃ vs again, validate {} "Dune.md" (some lent) loans true = .ok vs ∧
        validate {} "Dune.md" (some lent.reverse) loansByBorrower true = .ok again ∧ vs.Perm again ∧
        vs.map (·.field) = ["due", "borrower", "shelf"] ∧ again.map (·.field) = ["borrower", "due", "shelf"] := by
  have before : (validate {} "Dune.md" (some lent) loans true).map (List.map (·.field)) =
      .ok ["due", "borrower", "shelf"] := by cbv
  have after : (validate {} "Dune.md" (some lent.reverse) loansByBorrower true).map (List.map (·.field)) =
      .ok ["borrower", "due", "shelf"] := by cbv
  have perm : lent.Perm lent.reverse := (List.reverse_perm lent).symm
  have order : Outcome.Related List.Perm (validate {} "Dune.md" (some lent) loans true)
      (validate {} "Dune.md" (some lent.reverse) loansByBorrower true) :=
    validate_order {} loans_reordered (some lent) (some lent.reverse) perm lent_caseFree "Dune.md" true
  refine ⟨loans_reordered, perm, lent_caseFree, ?_⟩
  generalize validate {} "Dune.md" (some lent) loans true = x at *
  generalize validate {} "Dune.md" (some lent.reverse) loansByBorrower true = y at *
  cases order with
  | ok same => exact ⟨_, _, rfl, rfl, same, Except.ok.inj before, Except.ok.inj after⟩
  | error e f => cases before

end Registry
end VaultSchema
