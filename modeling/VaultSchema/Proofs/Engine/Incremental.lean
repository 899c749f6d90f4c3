import Mathlib
import VaultSchema.Proofs.Engine.Events

set_option autoImplicit false

namespace VaultSchema

/-- What may be told to the engine. The notes have changed when it is told. -/
inductive Change where
  | changed (d : Document)
  | renamed (old : String) (d : Document)
  | deleted (id : String)
  | revalidated (id : String)
  | rescanned (s : Schema)

namespace Change

def notes (n : NoteStore) : Change → NoteStore
  | changed d => n.put d
  | renamed old d => (n.without old).put d
  | deleted id => n.without id
  | revalidated _ | rescanned _ => n

def index (x : StoredIndex) : Change → StoredIndex
  | changed d => x.update d
  | renamed old d => (x.rename old d.id).update d
  | deleted id => x.remove id
  | revalidated _ | rescanned _ => x

def handle : Change → Engine.Run Unit
  | changed d => Engine.noteChanged d
  | renamed old d => Engine.noteRenamed old d
  | deleted id => Engine.noteDeleted id
  | revalidated id => Engine.revalidate id
  | rescanned s => Engine.rescan s

/-- A change happens to the notes, and then the engine is told. -/
def step (c : Change) : Engine.Run Unit := do
  modify fun e => { e with notes := c.notes e.notes }
  c.handle

def settle (c : Change) (e : Engine) : Engine :=
  { e with notes := c.notes e.notes, index := c.index e.index }

/-- A note is renamed to a path that no note has, and the reports of a known schema are rescanned. -/
def Allowed (c : Change) (e : Engine) : Prop :=
  match c with
  | renamed _ d => e.notes.find? d.id = none
  | rescanned s => s ∈ e.schemaSet.schemas
  | changed _ | deleted _ | revalidated _ => True

def Untroubled (e : Engine) : List Change → Prop
  | [] => True
  | c :: rest => c.Allowed e ∧ (c.settle e).Sound ∧ Untroubled (c.settle e) rest

end Change

namespace Engine

variable {e : Engine}

theorem Keeps.settle {after : Engine} (h : Keeps e after) (c : Change) :
    Keeps (c.settle e) (c.settle after) := by
  refine ⟨h.options, ?_, h.blobs, ?_, h.schemaSet, h.cached⟩
  · unfold Change.settle
    rw [h.notes]
  · unfold Change.settle
    rw [h.index]

theorem Keeps.settles {after : Engine} (h : Keeps e after) (cs : List Change) :
    Keeps (cs.foldl (fun e c => c.settle e) e) (cs.foldl (fun e c => c.settle e) after) := by
  induction cs generalizing e after with
  | nil => exact h
  | cons c cs ih => exact ih (h.settle c)

theorem step_gives {c : Change} (exact : e.Exact) (sound : e.Sound) (allowed : c.Allowed e)
    (after : (c.settle e).Sound) :
    Gives c.step e fun _ after => Keeps (c.settle e) after ∧ after.Exact := by
  unfold Change.step
  rw [gives_bind, gives_modify]
  cases c with
  | changed d => exact noteChanged_gives (exact.changed sound.notes d) after (by simp [Change.notes])
  | renamed old d =>
    have awaits := exact.renamed sound.notes old allowed (e.index.rename old d.id)
      (e.cache.map (·.rename old d.id))
    have keeps : Keeps ((Change.renamed old d).settle e) { e with
        notes := (e.notes.without old).put d
        index := (e.index.rename old d.id).update d
        cache := e.cache.map (·.rename old d.id)
        violations := e.violations.rename old d.id } := ⟨rfl, rfl, rfl, rfl, rfl, by simp [Change.settle]⟩
    unfold Change.handle noteRenamed
    simp only [gives_bind, gives_onIndex, gives_onViolations, gives_onCache]
    refine (noteChanged_gives awaits (after.keeps keeps) (by simp)).mono ?_
    rintro _ done ⟨more, exact⟩
    exact ⟨keeps.trans more, exact⟩
  | deleted id => exact noteDeleted_gives exact sound.notes id after
  | revalidated id => exact revalidate_gives exact sound id
  | rescanned s =>
    refine ((exact.but fun _ => False).rescan_gives sound allowed fun _ h => h).mono ?_
    rintro _ after ⟨keeps, but⟩
    exact ⟨keeps, but.exact fun _ _ due => due.1⟩

end Engine

theorem Change.Untroubled.keeps {e after : Engine} {cs : List Change} (h : Untroubled e cs)
    (keeps : Engine.Keeps e after) : Untroubled after cs := by
  induction cs generalizing e after with
  | nil => trivial
  | cons c rest ih =>
    obtain ⟨allowed, sound, later⟩ := h
    have settled := keeps.settle c
    refine ⟨?_, sound.keeps settled, ih later settled⟩
    unfold Allowed at *
    rw [keeps.notes, keeps.schemaSet]
    exact allowed

namespace Engine

variable {e : Engine}

/-- What each change of a kind keeps, a series of such changes keeps. -/
theorem steps_keep {P : Engine → Prop} (kind : Change → Prop)
    (step : ∀ {e c}, P e → e.Sound → kind c → c.Allowed e → (c.settle e).Sound →
      Gives c.step e fun _ after => Keeps (c.settle e) after ∧ P after)
    {cs : List Change} (start : P e) (sound : e.Sound) (all : ∀ c ∈ cs, kind c) (untroubled : Change.Untroubled e cs) :
    Gives (each Change.step cs) e fun _ after => Keeps (cs.foldl (fun e c => c.settle e) e) after ∧ P after := by
  -- On the changes still to come, which stay untroubled once the first of them has been made.
  induction cs generalizing e with
  | nil => exact ⟨.refl e, start⟩
  | cons c rest ih =>
    obtain ⟨allowed, settled, later⟩ := untroubled
    rw [each, gives_bind]
    refine (step start sound (all c (by simp)) allowed settled).mono ?_
    rintro _ mid ⟨keeps, now⟩
    refine (ih now (settled.keeps keeps) (fun c mem => all c (by simp [mem])) (later.keeps keeps)).mono ?_
    rintro _ after ⟨more, done⟩
    exact ⟨(keeps.settles rest).trans more, done⟩

theorem steps_gives {cs : List Change} (exact : e.Exact) (sound : e.Sound)
    (untroubled : Change.Untroubled e cs) :
    Gives (each Change.step cs) e fun _ after =>
      Keeps (cs.foldl (fun e c => c.settle e) e) after ∧ after.Exact :=
  steps_keep (fun _ => True) (fun exact sound _ allowed settled => step_gives exact sound allowed settled)
    exact sound (fun _ _ => trivial) untroubled

/-- After a full validation and any changes the engine holds of every note, perhaps in another order,
what a full validation of an engine with the same notes, schemas and options finds from the start. -/
theorem changes_eq_validateAll (e : Engine) (cs : List Change) (startable : e.Startable)
    (sound : (started e).Sound) (untroubled : Change.Untroubled (started e) cs) :
    Gives (do
      discard (validateAll none)
      each Change.step cs) e fun _ after => ∀ f : Engine, Alike after f → f.Startable →
        (started f).Sound → Gives (validateAll none) f fun finished full => finished = true ∧
          ∀ id, (after.violations.ofNote id).Perm (full.violations.ofNote id) := by
  rw [gives_bind, gives_discard]
  refine (validateAll_gives startable sound).mono ?_
  rintro _ mid ⟨_, keeps, exact⟩
  refine (steps_gives exact (sound.keeps keeps) (untroubled.keeps keeps)).mono ?_
  rintro _ after ⟨_, done⟩ f same startable sound
  refine (validateAll_gives startable sound).mono ?_
  rintro finished full ⟨ended, more, fresh⟩
  refine ⟨ended, fun id => done.perm fresh ?_ id⟩
  exact ⟨more.options.trans ((alike_started f).options.trans same.options),
    more.notes.trans ((alike_started f).notes.trans same.notes),
    more.schemaSet.trans ((alike_started f).schemaSet.trans same.schemaSet)⟩

def bookNumbers : Schema where
  id := "books"
  query := "*"
  fields := [{ name := "isbn", type := .primitive .string, required := true, unique := true }]

def copy (path isbn : String) : Document := ⟨path, some [(.text "isbn", .text isbn)], [], none, none⟩

def shelf (x : StoredIndex) (ds : List Document) : Engine where
  notes := ⟨ds⟩
  index := x
  schemaSet := ⟨[bookNumbers], {}⟩

def everything : Query := ⟨"*", [⟨[.all], []⟩]⟩

theorem read_everything : Query.read bookNumbers.query = .ok everything := by
  have all : Query.conditionOfText "*" 1 = .ok .all := by rfl
  have tokens : Query.tokenize "*" = .ok [⟨.word, "*", 1, false⟩, ⟨.finish, "", 2, false⟩] := by cbv
  simp [Query.read, bookNumbers, everything, tokens, Query.readSegments_cons, Query.readSegments_nil,
    Query.readSegment, Query.readConditions_step, Query.readExcluded_cons,
    Query.conditionOfWords, Query.Token.isWord, all, bind, Except.bind, pure, Except.pure]

theorem covers_everything (c : Catalog) : c.Covers everything := by
  intro g hg k hk d has _
  obtain rfl : g = ⟨[.all], []⟩ := by simpa [everything] using hg
  obtain rfl : k = .all := by simpa using hk
  have mem := NoteStore.mem_of_find? has
  simpa [Catalog.resolve, NoteStore.ids] using ⟨d, mem, rfl⟩

theorem sortable_everything (c : Catalog) : TagIndex.Sortable (c.candidates everything) := by
  refine Catalog.sortable_candidates fun g hg k hk i mem => ?_
  obtain rfl : g = ⟨[.all], []⟩ := by simpa [everything] using hg
  obtain rfl : k = .all := by simpa using hk
  obtain ⟨id, _, rfl⟩ := List.mem_map.1 mem
  exact ⟨id, rfl⟩

theorem bookNumbers_applies (d : Document) : bookNumbers.applies d = .ok true := by
  have busy : bookNumbers.isIdle = false := by cbv
  have holds : everything.holds d = true := rfl
  rw [Schema.applies_read busy read_everything, if_pos holds]
  rfl

theorem bookNumbers_accepts (d : Document) : bookNumbers.accepts d = true := by
  unfold Schema.accepts
  rw [bookNumbers_applies]
  rfl

theorem shelf_sound (x : StoredIndex) {ds : List Document} (distinct : (ds.map (·.id)).Nodup)
    (valid : ∀ d ∈ ds, ({} : Registry).validate d.id d.frontmatter bookNumbers true = .ok [])
    (observed : UniqueValues.scan bookNumbers {} (⟨ds⟩ : NoteStore).listed = .ok ()) :
    (shelf x ds).Sound := by
  refine ⟨distinct, by simp [shelf], ?_, ?_, ?_, ?_, by simp [shelf]⟩
  · intro s mem d _
    obtain rfl : s = bookNumbers := by simpa [shelf] using mem
    rw [bookNumbers_applies]
    exact ⟨true, rfl⟩
  · intro s mem
    obtain rfl : s = bookNumbers := by simpa [shelf] using mem
    exact selects_of_covered distinct (Or.inr ⟨everything, read_everything, covers_everything _, sortable_everything _⟩)
      fun d => ⟨true, bookNumbers_applies d⟩
  · intro s mem d inside _
    obtain rfl : s = bookNumbers := by simpa [shelf] using mem
    refine ⟨[], ?_⟩
    unfold check
    rw [show (shelf x ds).schemaSet.registry.validate d.id d.frontmatter bookNumbers
      (shelf x ds).options.checkUnknown = .ok [] from valid d inside]
    rfl
  · intro s mem
    obtain rfl : s = bookNumbers := by simpa [shelf] using mem
    have all : (shelf x ds).chosen bookNumbers = (⟨ds⟩ : NoteStore).listed := by
      simp [chosen, shelf, bookNumbers_accepts]
    rw [all, observed]

/-- A book takes the number of another one, is moved, and loses its double. -/
def lending : List Change :=
  [.changed (copy "Dune.md" "1"), .renamed "Dune.md" (copy "Arrakis.md" "1"), .deleted "Emma.md"]

def library : Engine := shelf { ready := true } [copy "Dune.md" "2", copy "Emma.md" "1"]

theorem valid_one (path : String) :
    ({} : Registry).validate (copy path "1").id (copy path "1").frontmatter bookNumbers true = .ok [] := by
  cbv

theorem valid_two (path : String) :
    ({} : Registry).validate (copy path "2").id (copy path "2").frontmatter bookNumbers true = .ok [] := by
  cbv

theorem library_sound : (started library).Sound := by
  exact shelf_sound _ (by decide) (by simp [valid_one, valid_two]) (by cbv)

theorem untroubled_shelf {x : StoredIndex} {ds : List Document} {c : Change} {cs : List Change}
    (after : List Document) (allowed : c.Allowed (shelf x ds)) (notes : c.notes ⟨ds⟩ = ⟨after⟩)
    (distinct : (after.map (·.id)).Nodup)
    (valid : ∀ d ∈ after, ({} : Registry).validate d.id d.frontmatter bookNumbers true = .ok [])
    (observed : UniqueValues.scan bookNumbers {} (⟨after⟩ : NoteStore).listed = .ok ())
    (rest : Change.Untroubled (shelf (c.index x) after) cs) :
    Change.Untroubled (shelf x ds) (c :: cs) := by
  have settled : c.settle (shelf x ds) = shelf (c.index x) after := by
    unfold Change.settle shelf
    dsimp only
    rw [notes]
  refine ⟨allowed, ?_, ?_⟩
  · rw [settled]
    exact shelf_sound _ distinct valid observed
  · rw [settled]
    exact rest

theorem lending_untroubled : Change.Untroubled (started library) lending := by
  have begun : started library = library := rfl
  rw [begun, library, lending]
  refine untroubled_shelf [copy "Dune.md" "1", copy "Emma.md" "1"] ?_ (by cbv)
    (by decide) (by simp [valid_one]) (by cbv) ?_
  · simp only [Change.Allowed]
  refine untroubled_shelf [copy "Arrakis.md" "1", copy "Emma.md" "1"] ?_ (by cbv)
    (by decide) (by simp [valid_one]) (by cbv) ?_
  · simp only [Change.Allowed, shelf]
    rfl
  refine untroubled_shelf [copy "Arrakis.md" "1"] ?_ (by cbv)
    (by decide) (by simp [valid_one]) (by cbv) ?_
  · simp only [Change.Allowed]
  · simp only [Change.Untroubled]

/-- The library as a full validation finds it after the lending. -/
theorem lending_eq_validateAll :
    library.Startable ∧ (started library).Sound ∧ Change.Untroubled (started library) lending ∧
      Gives (do
        discard (validateAll none)
        each Change.step lending) library fun _ after => ∀ f : Engine, Alike after f → f.Startable →
          (started f).Sound → Gives (validateAll none) f fun finished full => finished = true ∧
            ∀ id, (after.violations.ofNote id).Perm (full.violations.ofNote id) := by
  have startable : library.Startable := Or.inl rfl
  exact ⟨startable, library_sound, lending_untroubled,
    changes_eq_validateAll library lending startable library_sound lending_untroubled⟩

end Engine
end VaultSchema
