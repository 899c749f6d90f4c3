import VaultSchema.Engine.Basic

set_option autoImplicit false

namespace VaultSchema.Engine

/-- Work succeeds, and its value and the engine after it satisfy a condition. -/
def Gives {α : Type} (work : Run α) (e : Engine) (holds : α → Engine → Prop) : Prop :=
  match work.run.run e with
  | (.ok a, after) => holds a after
  | (.error _, _) => False

variable {α β : Type} {e : Engine}

theorem Gives.mono {work : Run α} {p q : α → Engine → Prop} (h : Gives work e p)
    (weaker : ∀ a after, p a after → q a after) : Gives work e q := by
  unfold Gives at *
  cases result : work.run.run e with
  | mk found after =>
    rw [result] at h
    cases found with
    | error f => exact h
    | ok a => exact weaker a after h

@[simp] theorem gives_pure {a : α} {p : α → Engine → Prop} : Gives (pure a) e p ↔ p a e := Iff.rfl

theorem run_bind (work : Run α) (next : α → Run β) (e : Engine) :
    (work >>= next).run.run e =
      match work.run.run e with
      | (.ok a, after) => (next a).run.run after
      | (.error f, after) => (.error f, after) := by
  unfold ExceptT.run StateT.run
  simp only [bind, ExceptT.bind, ExceptT.mk, StateT.bind, ExceptT.bindCont]
  cases work e with
  | mk found after => cases found <;> rfl

@[simp] theorem gives_bind {work : Run α} {next : α → Run β} {p : β → Engine → Prop} :
    Gives (work >>= next) e p ↔ Gives work e fun a after => Gives (next a) after p := by
  unfold Gives
  rw [run_bind]
  cases work.run.run e with
  | mk found after => cases found <;> rfl

@[simp] theorem gives_get {p : Engine → Engine → Prop} : Gives get e p ↔ p e e := Iff.rfl

@[simp] theorem gives_set {s : Engine} {p : PUnit → Engine → Prop} : Gives (set s) e p ↔ p ⟨⟩ s := Iff.rfl

@[simp] theorem gives_modify {f : Engine → Engine} {p : PUnit → Engine → Prop} :
    Gives (modify f) e p ↔ p ⟨⟩ (f e) := Iff.rfl

@[simp] theorem gives_onViolations {f : ViolationStore → ViolationStore} {p : Unit → Engine → Prop} :
    Gives (onViolations f) e p ↔ p () { e with violations := f e.violations } := Iff.rfl

@[simp] theorem gives_onCache {f : Cache → Cache} {p : Unit → Engine → Prop} :
    Gives (onCache f) e p ↔ p () { e with cache := e.cache.map f } := Iff.rfl

@[simp] theorem gives_onIndex {f : StoredIndex → StoredIndex} {p : Unit → Engine → Prop} :
    Gives (onIndex f) e p ↔ p () { e with index := f e.index } := Iff.rfl

theorem gives_ofCheck {r : Check α} {p : α → Engine → Prop} :
    Gives (ofCheck r) e p ↔ ∃ a, r = .ok a ∧ p a e := by
  cases r with
  | error f =>
    simp only [reduceCtorEq, false_and, exists_false, iff_false]
    exact fun h => h
  | ok a => simp [ofCheck]

theorem gives_ofValue {r : Except ValueFault α} {p : α → Engine → Prop} :
    Gives (ofValue r) e p ↔ ∃ a, r = .ok a ∧ p a e := by
  cases r with
  | error f =>
    simp only [reduceCtorEq, false_and, exists_false, iff_false]
    exact fun h => h
  | ok a => simp [ofValue]

@[simp] theorem gives_discard {work : Run α} {p : PUnit → Engine → Prop} :
    Gives (discard work) e p ↔ Gives work e fun _ after => p ⟨⟩ after := by
  have same : discard work = work >>= fun _ => pure ⟨⟩ := rfl
  rw [same, gives_bind]
  rfl

theorem run_batched (work : Run α) (e : Engine) :
    (batched work).run.run e =
      ((work.run.run { e with violations := e.violations.beginBatch }).1,
        { (work.run.run { e with violations := e.violations.beginBatch }).2 with
          violations := (work.run.run { e with
            violations := e.violations.beginBatch }).2.violations.endBatch }) := rfl

theorem gives_batched {work : Run α} {p : α → Engine → Prop} :
    Gives (batched work) e p ↔ Gives work { e with violations := e.violations.beginBatch }
      fun a after => p a { after with violations := after.violations.endBatch } := by
  unfold Gives
  rw [run_batched]
  cases work.run.run { e with violations := e.violations.beginBatch } with
  | mk found after => cases found <;> rfl

theorem induction_along {l : List α} {motive : List α → List α → Prop} (finish : motive l [])
    (step : ∀ done a rest, l = done ++ a :: rest → motive (done ++ [a]) rest → motive done (a :: rest)) :
    motive [] l := by
  have along : ∀ rest done, l = done ++ rest → motive done rest := by
    intro rest
    induction rest with
    | nil =>
      intro done all
      rw [List.append_nil] at all
      exact all ▸ finish
    | cons a rest ih =>
      intro done all
      exact step done a rest all (ih (done ++ [a]) (by rw [all, List.append_assoc]; rfl))
  exact along l [] rfl

/-- A loop, by a condition on the part that is done. -/
theorem gives_each {work : α → Run Unit} {l : List α} (holds : List α → Engine → Prop)
    (start : holds [] e)
    (step : ∀ done a rest, l = done ++ a :: rest → ∀ e, holds done e →
      Gives (work a) e fun _ after => holds (done ++ [a]) after) :
    Gives (each work l) e fun _ after => holds l after := by
  refine induction_along (motive := fun done rest =>
    ∀ e, holds done e → Gives (each work rest) e fun _ after => holds l after) ?_ ?_ e start
  · exact fun _ now => now
  · intro done a rest all ih e now
    rw [each, gives_bind]
    exact (step done a rest all e now).mono fun _ after => ih after

def Leads {α : Type} (work : Run α) (e : Engine) (holds : α → Engine → Prop) : Prop :=
  ∀ a after, work.run.run e = (.ok a, after) → holds a after

theorem Gives.run {work : Run α} {p : α → Engine → Prop} (h : Gives work e p) :
    ∃ a after, work.run.run e = (.ok a, after) ∧ p a after := by
  unfold Gives at h
  cases result : work.run.run e with
  | mk found after =>
    rw [result] at h
    cases found with
    | error f => exact h.elim
    | ok a => exact ⟨a, after, rfl, h⟩

theorem Gives.of_run {work : Run α} {p : α → Engine → Prop} {a : α} {after : Engine}
    (result : work.run.run e = (.ok a, after)) (h : p a after) : Gives work e p := by
  unfold Gives
  rw [result]
  exact h

theorem Gives.and {work : Run α} {p q : α → Engine → Prop} (h : Gives work e p)
    (leads : Leads work e q) : Gives work e fun a after => p a after ∧ q a after := by
  obtain ⟨a, after, result, holds⟩ := h.run
  exact .of_run result ⟨holds, leads a after result⟩

theorem Gives.leads {work : Run α} {p : α → Engine → Prop} (h : Gives work e p) : Leads work e p := by
  obtain ⟨a, after, result, holds⟩ := h.run
  intro b other same
  rw [result] at same
  cases same
  exact holds

theorem Leads.mono {work : Run α} {p q : α → Engine → Prop} (h : Leads work e p)
    (weaker : ∀ a after, p a after → q a after) : Leads work e q :=
  fun a after result => weaker a after (h a after result)

theorem Leads.and {work : Run α} {p q : α → Engine → Prop} (h : Leads work e p)
    (g : Leads work e q) : Leads work e fun a after => p a after ∧ q a after :=
  fun a after result => ⟨h a after result, g a after result⟩

@[simp] theorem leads_pure {a : α} {p : α → Engine → Prop} : Leads (pure a) e p ↔ p a e := by
  constructor
  · exact fun h => h a e rfl
  · rintro h _ _ ⟨⟩
    exact h

@[simp] theorem leads_bind {work : Run α} {next : α → Run β} {p : β → Engine → Prop} :
    Leads (work >>= next) e p ↔ Leads work e fun a after => Leads (next a) after p := by
  unfold Leads
  rw [run_bind]
  cases work.run.run e with
  | mk found after =>
    cases found with
    | error f =>
      constructor
      · rintro _ _ _ ⟨⟩
      · rintro _ _ _ ⟨⟩
    | ok a =>
      constructor
      · rintro h _ _ ⟨⟩
        exact h
      · exact fun h => h a after rfl

@[simp] theorem leads_get {p : Engine → Engine → Prop} : Leads get e p ↔ p e e := leads_pure (a := e)

@[simp] theorem leads_set {s : Engine} {p : PUnit → Engine → Prop} : Leads (set s) e p ↔ p ⟨⟩ s :=
  ⟨fun h => h ⟨⟩ s rfl, by rintro h _ _ ⟨⟩; exact h⟩

@[simp] theorem leads_modify {f : Engine → Engine} {p : PUnit → Engine → Prop} :
    Leads (modify f) e p ↔ p ⟨⟩ (f e) := ⟨fun h => h ⟨⟩ (f e) rfl, by rintro h _ _ ⟨⟩; exact h⟩

@[simp] theorem leads_onViolations {f : ViolationStore → ViolationStore} {p : Unit → Engine → Prop} :
    Leads (onViolations f) e p ↔ p () { e with violations := f e.violations } := leads_modify

@[simp] theorem leads_onCache {f : Cache → Cache} {p : Unit → Engine → Prop} :
    Leads (onCache f) e p ↔ p () { e with cache := e.cache.map f } := leads_modify

@[simp] theorem leads_onIndex {f : StoredIndex → StoredIndex} {p : Unit → Engine → Prop} :
    Leads (onIndex f) e p ↔ p () { e with index := f e.index } := leads_modify

theorem leads_ofCheck {r : Check α} {p : α → Engine → Prop} :
    Leads (ofCheck r) e p ↔ ∀ a, r = .ok a → p a e := by
  cases r with
  | error f =>
    simp only [reduceCtorEq, false_implies, implies_true, iff_true]
    rintro _ _ ⟨⟩
  | ok a => simp [ofCheck]

theorem leads_ofValue {r : Except ValueFault α} {p : α → Engine → Prop} :
    Leads (ofValue r) e p ↔ ∀ a, r = .ok a → p a e := by
  cases r with
  | error f =>
    simp only [reduceCtorEq, false_implies, implies_true, iff_true]
    rintro _ _ ⟨⟩
  | ok a => simp [ofValue]

@[simp] theorem leads_discard {work : Run α} {p : PUnit → Engine → Prop} :
    Leads (discard work) e p ↔ Leads work e fun _ after => p ⟨⟩ after := by
  have same : discard work = work >>= fun _ => pure ⟨⟩ := rfl
  simp only [same, leads_bind, leads_pure]

theorem leads_batched {work : Run α} {p : α → Engine → Prop} :
    Leads (batched work) e p ↔ Leads work { e with violations := e.violations.beginBatch }
      fun a after => p a { after with violations := after.violations.endBatch } := by
  unfold Leads
  rw [run_batched]
  cases work.run.run { e with violations := e.violations.beginBatch } with
  | mk found mid =>
    constructor
    · rintro h a _ ⟨⟩
      exact h a _ rfl
    · rintro h a _ ⟨⟩
      exact h a mid rfl

theorem leads_each {work : α → Run Unit} {l : List α} (holds : List α → Engine → Prop)
    (start : holds [] e)
    (step : ∀ done a rest, l = done ++ a :: rest → ∀ e, holds done e →
      Leads (work a) e fun _ after => holds (done ++ [a]) after) :
    Leads (each work l) e fun _ after => holds l after := by
  refine induction_along (motive := fun done rest =>
    ∀ e, holds done e → Leads (each work rest) e fun _ after => holds l after) ?_ ?_ e start
  · exact fun e now => leads_pure.2 now
  · intro done a rest all ih e now
    rw [each, leads_bind]
    exact (step done a rest all e now).mono fun _ after => ih after

end VaultSchema.Engine
