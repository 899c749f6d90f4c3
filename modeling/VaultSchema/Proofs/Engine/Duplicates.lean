import VaultSchema.Engine.Duplicates
import VaultSchema.Proofs.Engine.Exact
import VaultSchema.Proofs.Engine.Run

set_option autoImplicit false

namespace VaultSchema

open ViolationStore (own dup)
open Observation (report issues Once aim)

namespace ViolationStore

/-- Violations that take the place of the reports on the same note and field. -/
def reissue (s : ViolationStore) (schema : String) (vs : List Violation) : ViolationStore :=
  vs.foldl (fun s v => s.replaceField v.document schema v.field .duplicateValue [v]) s

theorem Tidy.reissue {s : ViolationStore} (h : s.Tidy) (schema : String) (vs : List Violation) :
    (s.reissue schema vs).Tidy := by
  unfold ViolationStore.reissue
  induction vs generalizing s with
  | nil => exact h
  | cons v vs ih => exact ih (h.replaceField _ _ _ _ _)

theorem besides_reissue {s : ViolationStore} {schema : String} {vs : List Violation}
    (reports : ∀ v ∈ vs, v.schema = schema ∧ v.kind = .duplicateValue) (id : String) :
    besides schema ((s.reissue schema vs).ofNote id) = besides schema (s.ofNote id) := by
  unfold reissue
  induction vs generalizing s with
  | nil => rfl
  | cons v vs ih =>
    obtain ⟨rfl, kind⟩ := reports v (by simp)
    rw [List.foldl_cons, ih fun w mem => reports w (by simp [mem]), besides_replaceField kind]

theorem dup_reissue {s : ViolationStore} {schema : String} {vs : List Violation}
    (reports : ∀ v ∈ vs, v.schema = schema ∧ v.kind = .duplicateValue) (field id : String) :
    dup schema field ((s.reissue schema vs).ofNote id) =
      ((vs.filter (aim id field)).getLast?.map fun v => [v]).getD (dup schema field (s.ofNote id)) := by
  unfold reissue
  induction vs generalizing s with
  | nil => rfl
  | cons v vs ih =>
    obtain ⟨rfl, kind⟩ := reports v (by simp)
    rw [List.foldl_cons, ih fun w mem => reports w (by simp [mem]), dup_replaceField kind]
    by_cases hit : v.document = id ∧ v.field = field
    · have aimed : aim id field v = true := by simp [aim, hit]
      rw [if_pos hit, List.filter_cons, if_pos aimed, List.getLast?_cons]
      cases (vs.filter (aim id field)).getLast? <;> rfl
    · have missed : aim id field v = false := by
        rw [← Bool.not_eq_true, aim, Bool.and_eq_true, beq_iff_eq, beq_iff_eq]
        exact hit
      rw [if_neg hit, List.filter_cons, missed]
      rfl

/-- After the observations of a schema its reports are those of these observations, and all else is
as before. -/
structure Observed (schema : String) (os : List Observation) (before after : ViolationStore) :
    Prop where
  tidy : after.Tidy
  besides : ∀ id, besides schema (after.ofNote id) = besides schema (before.ofNote id)
  reports : ∀ field id, dup schema field (after.ofNote id) = report schema os id field

section observed

variable {schema : String} {os : List Observation} {before after : ViolationStore}

theorem Observed.owns (h : Observed schema os before after) (other id : String) :
    own other (after.ofNote id) = own other (before.ofNote id) := by
  rw [← own_besides schema, h.besides, own_besides]

theorem Observed.dups (h : Observed schema os before after) (other field id : String) :
    dup other field (after.ofNote id) =
      if schema = other then report schema os id field else dup other field (before.ofNote id) := by
  split
  · rename_i same
    rw [← same, h.reports]
  · rename_i differ
    rw [← dup_besides differ, h.besides, dup_besides differ]

theorem Observed.congr {b a : ViolationStore} (h : Observed schema os before after)
    (hb : b.byNote = before.byNote) (ha : a.byNote = after.byNote) : Observed schema os b a := by
  refine ⟨h.tidy.congr ha, ?_, ?_⟩
  · intro id
    rw [ofNote_congr ha, ofNote_congr hb]
    exact h.besides id
  · intro field id
    rw [ofNote_congr ha]
    exact h.reports field id

end observed

theorem observed_removeKind {s : ViolationStore} (h : s.Tidy) (schema : String) :
    Observed schema [] s (s.removeKind schema .duplicateValue) :=
  ⟨h.removeWhere _, besides_removeKind h schema, fun field => dup_removeKind h schema field⟩

end ViolationStore

namespace Observation

theorem issues_report {schema : String} {before os : List Observation} {v : Violation}
    (mem : v ∈ issues schema before os) : v.schema = schema ∧ v.kind = .duplicateValue := by
  induction os generalizing before with
  | nil => simp [issues] at mem
  | cons o rest ih =>
    rcases List.mem_append.1 mem with mem | mem
    · obtain ⟨schema, _, kind, _⟩ := mem_notices mem
      exact ⟨schema, kind⟩
    · exact ih mem

end Observation

theorem ViolationStore.Observed.reissue {schema : String} {os new : List Observation}
    {before after : ViolationStore} (h : Observed schema os before after) (once : Once (os ++ new)) :
    Observed schema (os ++ new) before (after.reissue schema (issues schema os new)) := by
  have reports : ∀ v ∈ issues schema os new, v.schema = schema ∧ v.kind = .duplicateValue :=
    fun v mem => Observation.issues_report mem
  refine ⟨h.tidy.reissue _ _, ?_, ?_⟩
  · intro id
    rw [besides_reissue reports, h.besides]
  · intro field id
    rw [dup_reissue reports, h.reports, Observation.report_append once]

namespace Engine

variable {e : Engine} {s : Schema}

@[simp] theorem gives_refreshCached {id : String} {p : Unit → Engine → Prop} :
    Gives (refreshCached id) e p ↔
      p () { e with cache := e.cache.map fun c => c.updateViolations id (e.violations.ofNote id) } :=
  Iff.rfl

@[simp] theorem gives_reportDuplicate {v : Violation} {p : Unit → Engine → Prop} :
    Gives (reportDuplicate s v) e p ↔
      p () { e with violations :=
        e.violations.replaceField v.document s.id v.field .duplicateValue [v] } := Iff.rfl

theorem refreshAll_gives (ids : List String) :
    Gives (each refreshCached ids) e fun _ after =>
      Keeps e after ∧ after.violations = e.violations := by
  refine gives_each (fun _ after => Keeps e after ∧ after.violations = e.violations)
    ⟨.refl e, rfl⟩ ?_
  rintro _ id _ _ now ⟨keeps, same⟩
  rw [gives_refreshCached]
  exact ⟨keeps.onCache _, same⟩

theorem reportDuplicates_gives (vs : List Violation) :
    Gives (reportDuplicates s vs) e fun _ after =>
      Keeps e after ∧ after.violations = e.violations.reissue s.id vs := by
  unfold reportDuplicates
  rw [gives_bind]
  refine (gives_each (fun done after => Keeps e after ∧
    after.violations = e.violations.reissue s.id done) ⟨.refl e, rfl⟩ ?_).mono ?_
  · rintro done v _ _ now ⟨keeps, same⟩
    rw [gives_reportDuplicate]
    refine ⟨keeps.onViolations _, ?_⟩
    dsimp only
    rw [same, ViolationStore.reissue, ViolationStore.reissue, List.foldl_append]
    rfl
  · rintro _ mid ⟨keeps, same⟩
    refine (refreshAll_gives _).mono ?_
    rintro _ after ⟨more, still⟩
    exact ⟨keeps.trans more, still.trans same⟩

theorem observe_gives {seen : UniqueValues} {d : Document} {vs : List Violation}
    (observed : (seen.observe s d.id d.frontmatter).2 = .ok vs) :
    Gives (observe s seen d) e fun next after =>
      next = (seen.observe s d.id d.frontmatter).1 ∧ Keeps e after ∧
        after.violations = e.violations.reissue s.id vs := by
  unfold observe
  dsimp only
  rw [observed, gives_bind, gives_ofValue]
  refine ⟨vs, rfl, ?_⟩
  rw [gives_bind]
  exact (reportDuplicates_gives vs).mono fun _ after h => ⟨rfl, h⟩

theorem Observed.observe_gives {seen : UniqueValues} {d : Document} {os : List Observation}
    {before : ViolationStore} {vs : List Violation}
    (h : ViolationStore.Observed s.id os before e.violations) (gathers : seen.Gathers os)
    (once : Once (os ++ s.observations d))
    (observed : (seen.observe s d.id d.frontmatter).2 = .ok vs) :
    Gives (observe s seen d) e fun next after => Keeps e after ∧
      next = (seen.observe s d.id d.frontmatter).1 ∧ next.Gathers (os ++ s.observations d) ∧
        ViolationStore.Observed s.id (os ++ s.observations d) before after.violations := by
  obtain ⟨more, rfl⟩ := gathers.observe once observed
  refine (Engine.observe_gives observed).mono ?_
  rintro _ after ⟨rfl, keeps, same⟩
  exact ⟨keeps, rfl, more, same ▸ h.reissue once⟩

theorem observeAll_gives {seen : UniqueValues} {ds : List Document} {os : List Observation}
    {before : ViolationStore} (h : ViolationStore.Observed s.id os before e.violations)
    (gathers : seen.Gathers os) (once : Once (os ++ ds.flatMap s.observations))
    (scanned : seen.scan s ds = .ok ()) :
    Gives (observeAll s seen ds) e fun _ after => Keeps e after ∧
      ViolationStore.Observed s.id (os ++ ds.flatMap s.observations) before after.violations := by
  induction ds generalizing e seen os with
  | nil => exact ⟨.refl e, by simpa using h⟩
  | cons d rest ih =>
    obtain ⟨vs, observed, scanned⟩ := Outcome.bind_eq_ok.1 scanned
    rw [List.flatMap_cons, ← List.append_assoc] at once ⊢
    rw [observeAll, gives_bind]
    refine (Observed.observe_gives h gathers (once.front) observed).mono ?_
    rintro next mid ⟨keeps, rfl, more, now⟩
    refine (ih now more once scanned).mono ?_
    rintro _ after ⟨further, done⟩
    exact ⟨keeps.trans further, done⟩

/-- A schema that can have no reports: it is not enabled, or no field of it is to be unique. -/
def Mute (s : Schema) : Prop := (!s.hasUniqueFields || !s.enabled) = true

theorem gives_rescan_mute (mute : Mute s) {p : Unit → Engine → Prop} :
    Gives (rescan s) e p ↔ p () e := by
  unfold rescan
  unfold Mute at mute
  rw [if_pos mute]
  exact gives_pure

theorem rescan_gives_of {ds : List Document} (selected : e.selected s = .ok ds)
    (distinct : (ds.map (·.id)).Nodup) (scanned : UniqueValues.scan s {} ds = .ok ())
    (tidy : e.violations.Tidy) (busy : ¬ Mute s) :
    Gives (rescan s) e fun _ after => Keeps e after ∧
      ViolationStore.Observed s.id (ds.flatMap s.observations) e.violations after.violations := by
  unfold rescan
  unfold Mute at busy
  rw [if_neg busy]
  simp only [gives_bind, gives_get, gives_ofValue, gives_batched, gives_onViolations]
  refine ⟨ds, selected, ?_⟩
  have start := (ViolationStore.observed_removeKind tidy.beginBatch s.id).congr
    (b := e.violations) rfl rfl
  have once : Once ([] ++ ds.flatMap s.observations) := s.once_observations distinct
  refine (observeAll_gives (e := { e with
    violations := e.violations.beginBatch.removeKind s.id .duplicateValue }) start
    UniqueValues.gathers_empty once scanned).mono ?_
  rintro _ mid ⟨keeps, observed⟩
  refine (refreshAll_gives _).mono ?_
  rintro _ after ⟨more, same⟩
  have all := keeps.trans more
  refine ⟨⟨all.options, all.notes, all.blobs, all.index, all.schemaSet, all.cached⟩, ?_⟩
  refine observed.congr rfl ?_
  rw [ViolationStore.byNote_endBatch, same]

theorem rescan_gives (sound : e.Sound) (mem : s ∈ e.schemaSet.schemas) (tidy : e.violations.Tidy)
    (busy : ¬ Mute s) :
    Gives (rescan s) e fun _ after => Keeps e after ∧
      ViolationStore.Observed s.id ((e.chosen s).flatMap s.observations) e.violations
        after.violations :=
  rescan_gives_of (sound.selected mem) (sound.nodup_chosen s) (sound.observes s mem) tidy busy

theorem observations_of_not_unique (none : s.hasUniqueFields = false) (d : Document) :
    s.observations d = [] := by
  have empty : s.uniqueGroups = [] := by
    simpa [Schema.uniqueGroups, Schema.hasUniqueFields] using none
  unfold Schema.observations
  split
  · rfl
  · simp [empty]

theorem accepts_of_not_enabled (off : s.enabled = false) (d : Document) : s.accepts d = false := by
  have idle : s.isIdle = true := by simp [Schema.isIdle, off]
  unfold Schema.accepts
  rw [Schema.applies_idle idle]
  rfl

theorem observations_of_mute (mute : Mute s) {d : Document} (accepts : s.accepts d = true) :
    s.observations d = [] := by
  unfold Mute at mute
  rw [Bool.or_eq_true, Bool.not_eq_true', Bool.not_eq_true'] at mute
  rcases mute with none | off
  · exact observations_of_not_unique none d
  · rw [accepts_of_not_enabled off] at accepts
    cases accepts

theorem reportOf_silent (silent : ∀ d ∈ e.chosen s, s.observations d = []) (id field : String) :
    e.reportOf s id field = [] := by
  unfold reportOf
  rw [List.flatMap_eq_nil_iff.2 silent]
  rfl

theorem reportOf_mute (mute : Mute s) (id field : String) : e.reportOf s id field = [] :=
  reportOf_silent (fun _ mem => observations_of_mute mute (mem_chosen.1 mem).2) id field

end Engine
end VaultSchema
