import VaultSchema.Proofs.Engine.Incremental
import VaultSchema.Proofs.Schema.Sharing

set_option autoImplicit false

namespace VaultSchema

open ViolationStore (dup besides)

structure ViolationStore.Rescanned (s : Schema) (ds : List Document) (before after : ViolationStore) :
    Prop where
  shared : ∀ d ∈ ds, ∀ g ∈ s.uniqueGroups, g.others ds d ≠ [] →
    ∃ last ∈ ds, g.keyIn? last = g.keyIn? d ∧ dup s.id g.name (after.ofNote d.id) =
      [.duplicate s.id g.name (g.shownIn last) d.id (g.others ds d)]
  unshared : ∀ d ∈ ds, ∀ g ∈ s.uniqueGroups, g.others ds d = [] →
    dup s.id g.name (after.ofNote d.id) = []
  known : ∀ id, ∀ v ∈ after.ofNote id, ViolationStore.reports s.id v = true →
    ∃ d ∈ ds, ∃ g ∈ s.uniqueGroups, d.id = id ∧ g.name = v.field ∧ g.others ds d ≠ []
  besides : ∀ id, besides s.id (after.ofNote id) = besides s.id (before.ofNote id)

theorem ViolationStore.Observed.rescanned {s : Schema} {ds : List Document}
    {before after : ViolationStore} (distinct : (ds.map (·.id)).Nodup)
    (h : Observed s.id (ds.flatMap s.observations) before after) : Rescanned s ds before after := by
  have unshared : ∀ d ∈ ds, ∀ g ∈ s.uniqueGroups, g.others ds d = [] →
      dup s.id g.name (after.ofNote d.id) = [] := by
    intro d mem g group alone
    obtain ⟨_, _, _, said⟩ := s.report_eq distinct mem group
    rw [h.reports, said, if_pos alone]
  refine ⟨?_, unshared, ?_, h.besides⟩
  · intro d mem g group others
    obtain ⟨last, there, same, said⟩ := s.report_eq distinct mem group
    refine ⟨last, there, same, ?_⟩
    rw [h.reports, said, if_neg others]
  · intro id v held report
    have inside : v ∈ dup s.id v.field (after.ofNote id) := by
      rw [ViolationStore.reports, Bool.and_eq_true, beq_iff_eq, beq_iff_eq] at report
      exact mem_dup.2 ⟨held, report.1, rfl, report.2⟩
    have named := inside
    rw [h.reports] at named
    obtain ⟨d, mem, g, group, rfl, field, _⟩ := Schema.mem_report named
    refine ⟨d, mem, g, group, rfl, field, fun alone => ?_⟩
    rw [← field, unshared d mem g group alone] at inside
    exact List.not_mem_nil inside

namespace Engine

variable {e : Engine} {s : Schema}

theorem leads_observeAll {seen : UniqueValues} {ds : List Document} :
    Leads (observeAll s seen ds) e fun _ _ => seen.scan s ds = .ok () := by
  induction ds generalizing e seen with
  | nil => exact fun _ _ _ => rfl
  | cons d rest ih =>
    unfold observeAll observe
    simp only [leads_bind, leads_ofValue, leads_pure]
    intro vs observed _ mid _
    refine ih.mono fun _ _ scanned => ?_
    rw [UniqueValues.scan, observed]
    exact scanned

theorem leads_rescan (busy : ¬ Mute s) :
    Leads (rescan s) e fun _ _ => ∃ ds, e.selected s = .ok ds ∧ UniqueValues.scan s {} ds = .ok () := by
  unfold rescan
  unfold Mute at busy
  rw [if_neg busy]
  simp only [leads_bind, leads_get, leads_ofValue, leads_batched, leads_onViolations]
  intro ds selected
  refine leads_observeAll.mono fun _ _ scanned => ?_
  exact fun _ _ _ => ⟨ds, selected, scanned⟩

/-- Whenever a rescan succeeds, the reports of its schema are just those that the selected notes call
for, and nothing else has changed. -/
theorem rescan_exact {after : Engine} (tidy : e.violations.Tidy) (enabled : s.enabled = true)
    (unique : s.hasUniqueFields = true) (ran : (rescan s).run.run e = (.ok (), after)) :
    Keeps e after ∧ ∃ ds, e.selected s = .ok ds ∧ ds.Pairwise (fun a b => a.id < b.id) ∧
      ViolationStore.Rescanned s ds e.violations after.violations := by
  have busy : ¬ Mute s := by simp [Mute, enabled, unique]
  obtain ⟨ds, selected, scanned⟩ := leads_rescan busy () after ran
  have strict := (selected_sound selected).1
  have distinct := nodup_ids strict
  obtain ⟨keeps, observed⟩ := (rescan_gives_of selected distinct scanned tidy busy).leads () after ran
  exact ⟨keeps, ds, selected, strict, observed.rescanned distinct⟩

/-- The library after a loan that nobody has scanned: a report of before, and what else is said. -/
def overdue : Engine :=
  { shelf { ready := true } [copy "Dune.md" "1", copy "Emma.md" "1", copy "Ulysses.md" "2"] with
    violations := ViolationStore.add {} [
      .duplicate "books" "isbn" "2" "Ulysses.md" ["Dune.md"],
      ⟨"Ulysses.md", "loans", "due", .missingRequired, "Missing required field: due", none, none⟩] }

theorem overdue_sound : overdue.Sound := by
  have shelved := @shelf_sound { ready := true }
    [copy "Dune.md" "1", copy "Emma.md" "1", copy "Ulysses.md" "2"] (by decide)
    (by simp [valid_one, valid_two]) (by cbv)
  exact shelved.keeps ((Keeps.refl _).onViolations _)

theorem overdue_exact : ∃ after, overdue.violations.Tidy ∧ bookNumbers.enabled = true ∧
    bookNumbers.hasUniqueFields = true ∧ (rescan bookNumbers).run.run overdue = (.ok (), after) ∧
    Keeps overdue after ∧ ∃ ds, overdue.selected bookNumbers = .ok ds ∧
      ds.Pairwise (fun a b => a.id < b.id) ∧
        ViolationStore.Rescanned bookNumbers ds overdue.violations after.violations := by
  have tidy : overdue.violations.Tidy := by
    unfold ViolationStore.Tidy
    decide
  have unique : bookNumbers.hasUniqueFields = true := by decide
  have busy : ¬ Mute bookNumbers := by
    rw [Mute, unique]
    decide
  obtain ⟨_, after, ran, _⟩ := (rescan_gives overdue_sound (by simp [overdue, shelf]) tidy busy).run
  exact ⟨after, tidy, rfl, unique, ran, rescan_exact tidy rfl unique ran⟩

end Engine
end VaultSchema
