import Mathlib.Data.List.Forall2

/-! Lists gone through by a test or a function that may fault. Such a pass succeeds exactly when it
succeeds at every element, and then it is the plain filter or map; otherwise its fault is that of an
element. -/

set_option autoImplicit false

namespace VaultSchema.Outcome

variable {ε α β γ δ : Type}

def yes : Except ε Bool → Bool
  | .ok b => b
  | .error _ => false

@[simp] theorem yes_ok (b : Bool) : yes (.ok b : Except ε Bool) = b := rfl

@[simp] theorem yes_error (e : ε) : yes (.error e : Except ε Bool) = false := rfl

theorem yes_eq_true {x : Except ε Bool} : yes x = true ↔ x = .ok true := by
  cases x <;> simp [yes]

theorem bind_eq_ok {x : Except ε α} {f : α → Except ε β} {b : β} :
    (x >>= f) = .ok b ↔ ∃ a, x = .ok a ∧ f a = .ok b := by
  cases x <;> simp [bind, Except.bind]

theorem seq_eq_ok {x : Except ε Unit} {f : Unit → Except ε β} {b : β} :
    (x >>= f) = .ok b ↔ x = .ok () ∧ f () = .ok b := by
  cases x <;> simp [bind, Except.bind]

theorem bind_eq_error {x : Except ε α} {f : α → Except ε β} {e : ε} :
    (x >>= f) = .error e ↔ x = .error e ∨ ∃ a, x = .ok a ∧ f a = .error e := by
  cases x <;> simp [bind, Except.bind]

@[simp] theorem map_eq_error {f : α → β} {x : Except ε α} {e : ε} : f <$> x = .error e ↔ x = .error e := by
  cases x <;> simp [Functor.map, Except.map]

@[simp] theorem mapError_eq_ok {x : Except ε α} {f : ε → δ} {a : α} : x.mapError f = .ok a ↔ x = .ok a := by
  cases x <;> simp [Except.mapError]

theorem map_getD_eq_ok {x : Option α} {f : α → Except ε β} {e : ε} {b : β} :
    (x.map f).getD (.error e) = .ok b ↔ ∃ a, x = some a ∧ f a = .ok b := by
  cases x with
  | none => exact ⟨nofun, nofun⟩
  | some a => exact ⟨fun made => ⟨a, rfl, made⟩, fun ⟨_, same, made⟩ => Option.some.inj same ▸ made⟩

theorem filterM_cons (p : α → Except ε Bool) (a : α) (l : List α) :
    (a :: l).filterM p = (do
      let b ← p a
      let r ← l.filterM p
      return if b then a :: r else r) := by
  have shift : ∀ (l acc : List α), List.filterAuxM p l acc =
      (List.filterAuxM p l []).map (· ++ acc) := by
    intro l
    induction l with
    | nil => intro acc; rfl
    | cons x l ih =>
      intro acc
      simp only [List.filterAuxM]
      cases p x with
      | error e => rfl
      | ok b =>
        simp only [bind, Except.bind]
        rw [ih (bif b then x :: acc else acc), ih (bif b then [x] else [])]
        cases List.filterAuxM p l [] <;> cases b <;> simp [Except.map]
  unfold List.filterM
  simp only [List.filterAuxM]
  cases p a with
  | error e => rfl
  | ok b =>
    simp only [bind, Except.bind]
    rw [shift]
    cases List.filterAuxM p l [] <;> cases b <;> simp [Except.map, pure, Except.pure]

theorem filterM_eq_ok_iff {p : α → Except ε Bool} {l r : List α} :
    l.filterM p = .ok r ↔
      (∀ a ∈ l, ∃ b, p a = .ok b) ∧ r = l.filter fun a => yes (p a) := by
  induction l generalizing r with
  | nil => simp [List.filterM, List.filterAuxM, bind, Except.bind, pure, Except.pure, eq_comm]
  | cons a l ih =>
    simp only [filterM_cons, bind_eq_ok]
    constructor
    · rintro ⟨b, hb, s, hs, hr⟩
      obtain ⟨all, rfl⟩ := ih.1 hs
      simp only [pure, Except.pure, Except.ok.injEq] at hr
      refine ⟨?_, ?_⟩
      · intro x hx
        rcases List.mem_cons.1 hx with rfl | hx
        · exact ⟨b, hb⟩
        · exact all x hx
      · cases b <;> simp [hb, ← hr]
    · rintro ⟨all, rfl⟩
      obtain ⟨b, hb⟩ := all a (by simp)
      refine ⟨b, hb, _, ih.2 ⟨fun x hx => all x (by simp [hx]), rfl⟩, ?_⟩
      cases b <;> simp [hb, pure, Except.pure]

theorem filterM_ok {p : α → Except ε Bool} {l : List α} (h : ∀ a ∈ l, ∃ b, p a = .ok b) :
    l.filterM p = .ok (l.filter fun a => yes (p a)) := filterM_eq_ok_iff.2 ⟨h, rfl⟩

theorem exists_of_filterM_error {p : α → Except ε Bool} {l : List α} {e : ε}
    (h : l.filterM p = .error e) : ∃ a ∈ l, p a = .error e := by
  induction l with
  | nil => simp [List.filterM, List.filterAuxM, bind, Except.bind, pure, Except.pure] at h
  | cons a l ih =>
    rw [filterM_cons, bind_eq_error] at h
    rcases h with h | ⟨b, _, h⟩
    · exact ⟨a, by simp, h⟩
    · rcases bind_eq_error.1 h with h | ⟨r, _, h⟩
      · obtain ⟨x, hx, hp⟩ := ih h
        exact ⟨x, by simp [hx], hp⟩
      · simp [pure, Except.pure] at h

theorem mapM_eq_ok_iff {f : α → Except ε β} {l : List α} {r : List β} :
    l.mapM f = .ok r ↔ List.Forall₂ (fun a b => f a = .ok b) l r := by
  induction l generalizing r with
  | nil => simp [pure, Except.pure, eq_comm]
  | cons a l ih =>
    simp only [List.mapM_cons, bind_eq_ok, List.forall₂_cons_left_iff]
    constructor
    · rintro ⟨b, hb, s, hs, hr⟩
      simp only [pure, Except.pure, Except.ok.injEq] at hr
      exact ⟨b, s, hb, ih.1 hs, hr.symm⟩
    · rintro ⟨b, s, hb, hs, rfl⟩
      exact ⟨b, hb, s, ih.2 hs, rfl⟩

theorem forM_eq_ok_iff {f : α → Except ε Unit} {l : List α} : l.forM f = .ok () ↔ ∀ a ∈ l, f a = .ok () := by
  induction l with
  | nil => simp [pure, Except.pure]
  | cons a l ih =>
    have step : (a :: l).forM f = f a >>= fun _ => l.forM f := rfl
    rw [step, seq_eq_ok, List.forall_mem_cons, ← ih]

theorem mapM_congr {f g : α → Except ε β} {l : List α} (same : ∀ a ∈ l, f a = g a) : l.mapM f = l.mapM g := by
  induction l with
  | nil => rfl
  | cons a l ih => rw [List.mapM_cons, List.mapM_cons, same a (by simp), ih fun b mem => same b (by simp [mem])]

theorem exists_mapM {f : α → Except ε β} {l : List α} (each : ∀ a ∈ l, ∃ b, f a = .ok b) :
    ∃ r, l.mapM f = .ok r := by
  induction l with
  | nil => exact ⟨[], rfl⟩
  | cons a l ih =>
    obtain ⟨b, first⟩ := each a (by simp)
    obtain ⟨r, rest⟩ := ih fun c mem => each c (by simp [mem])
    exact ⟨b :: r, by rw [List.mapM_cons, first, rest]; rfl⟩

theorem mapM_eq_error_iff {f : α → Except ε β} {l : List α} {e : ε} :
    l.mapM f = .error e ↔ ∃ a, l.find? (fun a => !(f a).isOk) = some a ∧ f a = .error e := by
  induction l with
  | nil => simp [pure, Except.pure]
  | cons a l ih =>
    rw [List.mapM_cons, List.find?_cons]
    -- A fault of the first element ends the pass; without one the fault is that of the rest.
    cases first : f a with
    | error e' => simp [Except.isOk, Except.toBool, first, bind_eq_error]
    | ok b =>
      have sound : (Except.ok b : Except ε β).isOk = true := rfl
      simpa [sound, bind_eq_error, pure, Except.pure] using ih

theorem mapM_append_eq_error {f : α → Except ε β} {l r : List α} {e : ε} :
    (l ++ r).mapM f = .error e ↔
      l.mapM f = .error e ∨ (∃ s, l.mapM f = .ok s) ∧ r.mapM f = .error e := by
  rw [List.mapM_append, bind_eq_error]
  simp [bind_eq_error, pure, Except.pure]

theorem exists_ok_iff {x : Except ε α} : (∃ a, x = .ok a) ↔ ∀ e, x ≠ .error e := by
  cases x <;> simp

theorem mapM_flatMap_eq_error {f : α → Except ε β} {g : α → List γ} {h : γ → Except ε δ} {l : List α}
    (each : ∀ a ∈ l, ∀ e, f a = .error e ↔ (g a).mapM h = .error e) (e : ε) :
    l.mapM f = .error e ↔ (l.flatMap g).mapM h = .error e := by
  induction l generalizing e with
  | nil => simp [pure, Except.pure]
  | cons a l ih =>
    have first := each a (by simp)
    have rest := ih fun b mem => each b (by simp [mem])
    have goes : (∃ b, f a = .ok b) ↔ ∃ s, (g a).mapM h = .ok s := by simp [exists_ok_iff, first]
    rw [List.flatMap_cons, mapM_append_eq_error, ← goes, ← first e, ← rest e, List.mapM_cons, bind_eq_error]
    simp [bind_eq_error, pure, Except.pure]

theorem mapM_map_ok {f : α → Except ε β} {g : α → α} (keeps : ∀ a b, f a = .ok b → f (g a) = .ok b) {l : List α}
    {r : List β} (made : l.mapM f = .ok r) : (l.map g).mapM f = .ok r := by
  rw [mapM_eq_ok_iff] at made ⊢
  rw [List.forall₂_map_left_iff]
  exact made.imp keeps

theorem mapM_map_eq_map {f : β → Except ε γ} {g : α → β} {h : α → γ} {l : List α}
    (each : ∀ a ∈ l, f (g a) = .ok (h a)) : (l.map g).mapM f = .ok (l.map h) := by
  rw [mapM_eq_ok_iff, List.forall₂_map_left_iff, List.forall₂_map_right_iff, List.forall₂_same]
  exact each

theorem mapM_map_eq_ok {f : β → Except ε α} {g : α → β} {l : List α} (back : ∀ a ∈ l, f (g a) = .ok a) :
    (l.map g).mapM f = .ok l := by
  rw [mapM_map_eq_map back, List.map_id']

theorem mapM_eq_some_self {f : α → Option α} {l : List α} (same : ∀ a ∈ l, f a = some a) : l.mapM f = some l := by
  induction l with
  | nil => rfl
  | cons a l ih =>
    rw [List.mapM_cons, same a (by simp), ih fun b mem => same b (by simp [mem])]
    rfl

theorem partner_right {R : α → β → Prop} {l : List α} {r : List β} (h : List.Forall₂ R l r) {a : α}
    (mem : a ∈ l) : ∃ b ∈ r, R a b := by
  induction h with
  | nil => cases mem
  | cons head _ ih =>
    rcases List.mem_cons.1 mem with rfl | mem
    · exact ⟨_, by simp, head⟩
    · obtain ⟨b, inside, related⟩ := ih mem
      exact ⟨b, by simp [inside], related⟩

theorem partner_left {R : α → β → Prop} {l : List α} {r : List β} (h : List.Forall₂ R l r) {b : β}
    (mem : b ∈ r) : ∃ a ∈ l, R a b := partner_right h.flip mem

theorem mapM_filter_flatten {f : α → Except ε (List β)} {p : α → Bool} {l : List α} {r : List (List β)}
    (made : l.mapM f = .ok r) (none : ∀ a ∈ l, p a = false → ∀ b, f a = .ok b → b = []) :
    ∃ s, (l.filter p).mapM f = .ok s ∧ s.flatten = r.flatten := by
  have pairs := mapM_eq_ok_iff.1 made
  clear made
  induction pairs with
  | nil => exact ⟨[], rfl, rfl⟩
  | @cons a b l r first _ ih =>
    obtain ⟨s, rest, same⟩ := ih fun c mem => none c (by simp [mem])
    cases kept : p a with
    | true =>
      refine ⟨b :: s, ?_, by simp [same]⟩
      rw [List.filter_cons_of_pos kept, List.mapM_cons, first, rest]
      rfl
    | false =>
      obtain rfl := none a (by simp) kept b first
      exact ⟨s, by rwa [List.filter_cons_of_neg (by simp [kept])], by simp [same]⟩

theorem exists_of_mem_mapM {f : α → Except ε β} {l : List α} {r : List β} (h : l.mapM f = .ok r) {b : β}
    (mem : b ∈ r) : ∃ a ∈ l, f a = .ok b := partner_left (mapM_eq_ok_iff.1 h) mem

/-- The fault of an outcome, if it has one, is of a kind. -/
def Within (P : ε → Prop) (x : Except ε α) : Prop := ∀ e, x = .error e → P e

section within

variable {P : ε → Prop}

@[simp] theorem within_ok (a : α) : Within P (.ok a : Except ε α) := nofun

@[simp] theorem within_error {e : ε} : Within P (.error e : Except ε α) ↔ P e :=
  ⟨fun h => h e rfl, fun h _ same => Except.error.inj same ▸ h⟩

@[simp] theorem within_pure (a : α) : Within P (pure a : Except ε α) := nofun

theorem Within.bind {x : Except ε α} {f : α → Except ε β} (first : Within P x)
    (further : ∀ a, x = .ok a → Within P (f a)) : Within P (x >>= f) := by
  intro e faults
  rcases bind_eq_error.1 faults with faults | ⟨a, found, faults⟩
  · exact first e faults
  · exact further a found e faults

theorem Within.map {x : Except ε α} (h : Within P x) (f : α → β) : Within P (do return f (← x)) :=
  h.bind fun _ _ => within_pure _

theorem within_mapM {f : α → Except ε β} {l : List α} (each : ∀ a ∈ l, Within P (f a)) : Within P (l.mapM f) := by
  intro e faults
  obtain ⟨a, first, faults⟩ := mapM_eq_error_iff.1 faults
  exact each a (List.mem_of_find?_eq_some first) e faults

theorem within_filterM {p : α → Except ε Bool} {l : List α} (each : ∀ a ∈ l, Within P (p a)) :
    Within P (l.filterM p) := by
  intro e faults
  obtain ⟨a, mem, faults⟩ := exists_of_filterM_error faults
  exact each a mem e faults

theorem within_mapError {x : Except ε α} {f : ε → δ} {Q : δ → Prop} :
    Within Q (x.mapError f) ↔ Within (fun e => Q (f e)) x := by
  cases x <;> simp [Within, Except.mapError]

theorem exists_ok_of_within {x : Except ε α} (h : Within (fun _ => False) x) : ∃ a, x = .ok a :=
  exists_ok_iff.2 h

end within

/-- Both outcomes are results, and these are related, or both are faults. -/
inductive Related (R : α → β → Prop) : Except ε α → Except ε β → Prop where
  | ok {a : α} {b : β} (results : R a b) : Related R (.ok a) (.ok b)
  | error (e f : ε) : Related R (.error e) (.error f)

theorem Related.bind {R : α → β → Prop} {S : γ → δ → Prop} {x : Except ε α} {y : Except ε β} {f : α → Except ε γ}
    {g : β → Except ε δ} (first : Related R x y) (further : ∀ a b, x = .ok a → R a b → Related S (f a) (g b)) :
    Related S (x >>= f) (y >>= g) := by
  cases first with
  | ok results => exact further _ _ rfl results
  | error e f => exact .error e f

theorem Related.mapError {R : α → β → Prop} {x : Except ε α} {y : Except ε β} (h : Related R x y) (f : ε → δ) :
    Related R (x.mapError f) (y.mapError f) := by
  cases h with
  | ok results => exact .ok results
  | error e g => exact .error (f e) (f g)

theorem Related.trans {R : α → α → Prop} (chain : ∀ a b c, R a b → R b c → R a c) {x y z : Except ε α}
    (first : Related R x y) (second : Related R y z) : Related R x z := by
  cases first with
  | ok results =>
    cases second with
    | ok further => exact .ok (chain _ _ _ results further)
  | error e f =>
    cases second with
    | error _ g => exact .error e g

theorem Related.of_eq {R : α → α → Prop} {x y : Except ε α} (refl : ∀ a, R a a) (same : x = y) : Related R x y := by
  subst same
  cases x with
  | ok a => exact .ok (refl a)
  | error e => exact .error e e

theorem related_mapM {f : α → Except ε β} {l r : List α} (perm : l.Perm r) :
    Related List.Perm (l.mapM f) (r.mapM f) := by
  induction perm with
  | nil => exact .ok .nil
  | cons a _ ih =>
    rw [List.mapM_cons, List.mapM_cons]
    refine (Related.of_eq (R := Eq) (fun _ => rfl) rfl).bind fun b c _ same => ?_
    subst same
    exact ih.bind fun _ _ _ rest => .ok (rest.cons b)
  | swap a b l =>
    simp only [List.mapM_cons]
    cases f a with
    | error e =>
      cases f b with
      | error e' => exact .error e' e
      | ok _ => exact .error e e
    | ok x =>
      cases f b with
      | error e' => exact .error e' e'
      | ok y =>
        cases l.mapM f with
        | error e => exact .error e e
        | ok s => exact .ok (.swap x y s)
  | trans _ _ first second => exact first.trans (R := List.Perm) (fun _ _ _ ab bc => ab.trans bc) second

end VaultSchema.Outcome
