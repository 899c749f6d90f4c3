import VaultSchema.Proofs.Cache.Printable
import VaultSchema.Proofs.Engine.Settled
import VaultSchema.Proofs.Schema.Reach

/-! What the entries of the cache name, after a full validation and any changes. An entry lists all
schemas that apply, unless one was validated again that applies to the note beside another one: the
entry is made anew then, and lists that schema alone until the note itself changes. -/

set_option autoImplicit false

namespace VaultSchema

/-- The notes whose entries list all schemas that apply, after a series of changes. -/
def Change.wholes (e : Engine) (whole : String → Prop) : List Change → String → Prop
  | [] => whole
  | c :: rest => wholes (c.settle e) (c.whole e whole) rest

namespace Engine

open ViolationStore (own)

variable {e after : Engine} {whole : String → Prop}

theorem Keeps.shared (h : Keeps e after) : after.Shared = e.Shared := by
  unfold Shared
  rw [h.notes, h.schemaSet]

theorem Keeps.wholes (h : Keeps e after) (cs : List Change) (whole : String → Prop) :
    Change.wholes after whole cs = Change.wholes e whole cs := by
  induction cs generalizing e after whole with
  | nil => rfl
  | cons c rest ih =>
    have same : c.whole after whole = c.whole e whole := by
      unfold Change.whole
      rw [h.shared]
    rw [Change.wholes, Change.wholes, same, ih (h.settle c)]

/-- Every note has an entry. Each entry is of a note as it is now, with its current violations, and lists
no schema that does not apply; that of a whole note lists all that do, and so all that say something. -/
structure Listed (whole : String → Prop) (e : Engine) (c : Cache) : Prop where
  held : ∀ d ∈ e.notes.notes, ∃ entry, c.notes.get? d.id = some entry
  dated : ∀ id entry, c.notes.get? id = some entry →
    ∃ d, e.notes.find? id = some d ∧ entry.mtime.equal d.mtime = true
  current : ∀ id entry, c.notes.get? id = some entry → entry.violations = e.violations.ofNote id
  applying : ∀ d ∈ e.notes.notes, ∀ entry, c.notes.get? d.id = some entry →
    ∀ schema ∈ entry.schemas, Concerns e.schemaSet d schema
  complete : ∀ d ∈ e.notes.notes, whole d.id → ∀ entry, c.notes.get? d.id = some entry →
    ∀ schema, Concerns e.schemaSet d schema → schema ∈ entry.schemas
  speakers : ∀ id entry, c.notes.get? id = some entry → whole id →
    ∀ v ∈ entry.violations, v.schema ∈ entry.schemas

theorem Keeping.listed (h : Keeping (.part e.schemaSet whole) e) (exact : e.Exact) :
    ∃ c, e.cache = some c ∧ Listed whole e c := by
  obtain ⟨c, cached, kept⟩ := h.kept
  have complete : ∀ d ∈ e.notes.notes, whole d.id → ∀ entry, c.notes.get? d.id = some entry →
      ∀ schema, Concerns e.schemaSet d schema → schema ∈ entry.schemas := by
    intro d mem whole entry found schema concerns
    obtain ⟨_, same, listed⟩ := kept.lists d mem schema ⟨whole, concerns⟩
    rw [found] at same
    cases same
    exact listed
  refine ⟨c, cached, fun d mem => kept.held d mem trivial,
    fun id entry found => kept.dated id entry found fun h => h,
    fun id entry found => kept.current id entry found (fun h => h) fun h => h,
    fun d mem entry found => kept.admits d mem entry found fun h => h, complete, ?_⟩
  intro id entry found whole v held
  rw [kept.current id entry found (fun h => h) fun h => h] at held
  obtain ⟨s, mem, named, d, inside, rfl, accepts⟩ := exact.speaker held
  exact complete d inside whole entry found v.schema ⟨s, mem, accepts, named⟩

theorem steps_list {cs : List Change} (exact : e.Exact) (keeping : Keeping (.part e.schemaSet whole) e)
    (sound : e.Sound) (untroubled : Change.Untroubled e cs) :
    Gives (each Change.step cs) e fun _ after => after.Exact ∧
      Keeping (.part after.schemaSet (Change.wholes e whole cs)) after := by
  induction cs generalizing e whole with
  | nil => exact ⟨exact, keeping⟩
  | cons c rest ih =>
    obtain ⟨allowed, next, later⟩ := untroubled
    rw [each, gives_bind]
    refine ((step_gives exact sound allowed next).and (keeping.step exact sound allowed next)).mono ?_
    rintro _ mid ⟨⟨keeps, now⟩, kept⟩
    rw [show e.schemaSet = mid.schemaSet from keeps.schemaSet.symm] at kept
    refine (ih now kept (next.keeps keeps) (later.keeps keeps)).mono ?_
    rintro _ after ⟨exact, kept⟩
    rw [keeps.wholes] at kept
    exact ⟨exact, kept⟩

theorem wholes_of_notes {cs : List Change} (notes : ∀ c ∈ cs, ∀ schema, c ≠ .revalidated schema)
    (all : ∀ path, whole path) (path : String) : Change.wholes e whole cs path := by
  induction cs generalizing e whole with
  | nil => exact all path
  | cons c rest ih =>
    refine ih (fun c mem => notes c (by simp [mem])) fun path => ?_
    cases c with
    | changed d | renamed old d => exact Or.inl (all path)
    | deleted id | rescanned s => exact all path
    | revalidated schema => exact (notes _ (by simp) schema rfl).elim

theorem revalidate_lists {d : Document} {schema : String} (exact : e.Exact)
    (keeping : Keeping (.part e.schemaSet whole) e) (sound : e.Sound) (mem : d ∈ e.notes.notes)
    (listed : whole d.id) (concerns : Concerns e.schemaSet d schema) :
    Gives (revalidate schema) e fun _ after => Keeps e after ∧ after.Exact ∧ ∃ c entry, after.cache = some c ∧
      c.notes.get? d.id = some entry ∧ entry.violations = after.violations.ofNote d.id ∧
        ∀ other ∈ entry.schemas, other = schema := by
  refine ((revalidate_gives exact sound schema).and (keeping.revalidate exact sound schema)).mono ?_
  rintro _ after ⟨⟨keeps, exact⟩, keeping⟩
  rw [← keeps.notes] at mem
  obtain ⟨c, cached, kept⟩ := keeping.kept
  obtain ⟨entry, found⟩ := kept.held d mem trivial
  refine ⟨keeps, exact, c, entry, cached, found, kept.current d.id entry found (fun h => h) fun h => h, ?_⟩
  exact fun other inside => (kept.admits d mem entry found (fun h => h) other inside).2 listed concerns

theorem Listed.subset {c : Cache} {more : String → Prop} (h : Listed more e c) (sub : ∀ path, whole path → more path) :
    Listed whole e c :=
  ⟨h.held, h.dated, h.current, h.applying, fun d mem here => h.complete d mem (sub d.id here),
    fun id entry found here => h.speakers id entry found (sub id here)⟩

/-- After a full validation and any changes the cache lists what it should, and all that it should if no
schema was validated again. -/
theorem changes_listed (e : Engine) (c : Cache) (cs : List Change) (startable : e.Startable)
    (sound : (started e).Sound) (untroubled : Change.Untroubled (started e) cs)
    (cached : e.cache = some c) (settings : c.settings = e.options.fingerprint) :
    Gives (do
      discard (validateAll none)
      each Change.step cs) e fun _ after => ∃ cache, after.cache = some cache ∧
        Listed (Change.wholes (started e) (fun _ => True) cs) after cache ∧
          ((∀ c ∈ cs, ∀ schema, c ≠ .revalidated schema) → Listed (fun _ => True) after cache) := by
  rw [gives_bind, gives_discard]
  refine ((validateAll_gives startable sound).and
    (validateAll_keeps startable sound cached settings)).mono ?_
  rintro _ mid ⟨⟨_, keeps, exact⟩, keeping⟩
  rw [← (alike_started e).schemaSet, ← keeps.schemaSet] at keeping
  refine (steps_list exact (keeping.relax (Coverage.full_part _ fun _ => True)) (sound.keeps keeps)
    (untroubled.keeps keeps)).mono ?_
  rintro _ after ⟨exact, keeping⟩
  rw [keeps.wholes] at keeping
  obtain ⟨cache, cached, listed⟩ := keeping.listed exact
  refine ⟨cache, cached, listed, fun notes => listed.subset fun path _ => ?_⟩
  exact wholes_of_notes notes (fun _ => trivial) path

def register (id : String) : Schema := { bookNumbers with id := id }

def registered (o : EngineOptions) (b : BlobStore) (x : StoredIndex) (ids : List String) (ds : List Document) :
    Engine where
  options := o
  notes := ⟨ds⟩
  blobs := b
  index := x
  cache := some { settings := o.fingerprint }
  schemaSet := ⟨ids.map register, {}⟩

theorem register_accepts (id : String) (d : Document) : (register id).accepts d = true := bookNumbers_accepts d

theorem exists_fingerprint_register (id : String) : ∃ digest, (register id).fingerprint {} = .ok digest := by
  refine Schema.exists_fingerprint ?_ ?_
  · intro f mem
    obtain rfl : f = { name := "isbn", type := .primitive .string, required := true, unique := true } := by
      simpa [register, bookNumbers] using mem
    exact ⟨by simp, by simp, by simp⟩
  · intro t mem
    have known : ∀ t ∈ ([] : List NamedType), ({} : Registry).find? t.name = some t := by simp
    cases (Registry.gathers_search known).known t mem

theorem registered_sound (o : EngineOptions) (b : BlobStore) (x : StoredIndex) {ids : List String}
    {ds : List Document} (schemas : ids.Nodup) (distinct : (ds.map (·.id)).Nodup)
    (valid : ∀ id ∈ ids, ∀ d ∈ ds, ∃ vs,
      ({} : Registry).validate d.id d.frontmatter (register id) o.checkUnknown = .ok vs)
    (observed : ∀ id ∈ ids, UniqueValues.scan (register id) {} (⟨ds⟩ : NoteStore).listed = .ok ()) :
    (registered o b x ids ds).Sound := by
  have known : ∀ s ∈ (registered o b x ids ds).schemaSet.schemas, ∃ id ∈ ids, s = register id := by
    intro s mem
    obtain ⟨id, inside, rfl⟩ := List.mem_map.1 mem
    exact ⟨id, inside, rfl⟩
  refine ⟨distinct, ?_, ?_, ?_, ?_, ?_, ?_⟩
  · simpa [registered, register, Function.comp_def] using schemas
  · intro s mem d _
    obtain ⟨id, _, rfl⟩ := known s mem
    exact ⟨true, by rw [show (register id).applies d = .ok true from bookNumbers_applies d]; rfl⟩
  · intro s mem
    obtain ⟨id, _, rfl⟩ := known s mem
    exact selects_of_covered distinct (Or.inr ⟨everything, read_everything, covers_everything _, sortable_everything _⟩)
      fun d => ⟨true, bookNumbers_applies d⟩
  · intro s mem d inside _
    obtain ⟨id, listed, rfl⟩ := known s mem
    obtain ⟨vs, valid⟩ := valid id listed d inside
    refine ⟨if o.allowNative then dropAllowed nativeProperties vs else vs, ?_⟩
    unfold check
    rw [show (registered o b x ids ds).schemaSet.registry.validate d.id d.frontmatter (register id)
      (registered o b x ids ds).options.checkUnknown = .ok vs from valid]
    rfl
  · intro s mem
    obtain ⟨id, listed, rfl⟩ := known s mem
    have all : (registered o b x ids ds).chosen (register id) = (⟨ds⟩ : NoteStore).listed := by
      simp [chosen, registered, register_accepts]
    rw [all, observed id listed]
  · intro _ s mem _
    obtain ⟨id, _, rfl⟩ := known s mem
    exact exists_fingerprint_register id

def unnumbered (path : String) : Document := ⟨path, none, [], none, none⟩

theorem valid_numbered (id path : String) : ∃ vs,
    ({} : Registry).validate (copy path "1").id (copy path "1").frontmatter (register id) true = .ok vs :=
  ⟨[], by cbv⟩

def missingNumber (id path : String) : Violation :=
  ⟨path, id, "isbn", .missingRequired, "Missing required field: isbn", none, none⟩

theorem valid_unnumbered (id path : String) :
    ({} : Registry).validate (unnumbered path).id (unnumbered path).frontmatter (register id) true =
      .ok [missingNumber id path] := by
  cbv

def registers : Engine :=
  registered {} {} { ready := true } ["books", "loans"] [unnumbered "Dune.md", copy "Emma.md" "1"]

theorem registers_sound : (started registers).Sound := by
  refine registered_sound _ _ _ (by decide) (by decide) ?_ ?_
  · intro id _ d mem
    simp only [List.mem_cons, List.not_mem_nil, or_false] at mem
    obtain rfl | rfl := mem
    · exact ⟨_, valid_unnumbered id "Dune.md"⟩
    · exact valid_numbered id "Emma.md"
  · intro id _
    cbv

theorem untroubled_registered {b : BlobStore} {x : StoredIndex} {ids : List String} {ds : List Document} {c : Change}
    {cs : List Change} (after : List Document) (allowed : c.Allowed (registered {} b x ids ds))
    (notes : c.notes ⟨ds⟩ = ⟨after⟩) (schemas : ids.Nodup) (distinct : (after.map (·.id)).Nodup)
    (numbered : ∀ d ∈ after, d = copy d.id "1" ∨ d = unnumbered d.id)
    (observed : ∀ id ∈ ids, UniqueValues.scan (register id) {} (⟨after⟩ : NoteStore).listed = .ok ())
    (rest : Change.Untroubled (registered {} b (c.index x) ids after) cs) :
    Change.Untroubled (registered {} b x ids ds) (c :: cs) := by
  have settled : c.settle (registered {} b x ids ds) = registered {} b (c.index x) ids after := by
    unfold Change.settle registered
    dsimp only
    rw [notes]
  refine ⟨allowed, ?_, ?_⟩
  · rw [settled]
    refine registered_sound _ _ _ schemas distinct ?_ observed
    intro id _ d mem
    rcases numbered d mem with same | same
    · rw [same]
      exact valid_numbered id d.id
    · rw [same]
      exact ⟨_, valid_unnumbered id d.id⟩
  · rw [settled]
    exact rest

def entering : List Change :=
  [.revalidated "books", .changed (copy "Dune.md" "1"), .renamed "Dune.md" (copy "Arrakis.md" "1"),
    .deleted "Emma.md"]

theorem entering_untroubled : Change.Untroubled (started registers) entering := by
  have begun : started registers = registers := rfl
  rw [begun, registers, entering]
  refine untroubled_registered [unnumbered "Dune.md", copy "Emma.md" "1"] trivial rfl (by decide) (by decide)
    (by simp [copy, unnumbered]) (fun id _ => by cbv) ?_
  refine untroubled_registered [copy "Dune.md" "1", copy "Emma.md" "1"] trivial (by cbv) (by decide) (by decide)
    (by simp [copy]) (fun id _ => by cbv) ?_
  refine untroubled_registered [copy "Arrakis.md" "1", copy "Emma.md" "1"] rfl (by cbv) (by decide) (by decide)
    (by simp [copy]) (fun id _ => by cbv) ?_
  exact untroubled_registered [copy "Arrakis.md" "1"] trivial (by cbv) (by decide) (by decide)
    (by simp [copy]) (fun id _ => by cbv) trivial

/-- The entries of the registers after the books were entered. -/
theorem entering_listed :
    registers.Startable ∧ (started registers).Sound ∧ Change.Untroubled (started registers) entering ∧
      Gives (do
        discard (validateAll none)
        each Change.step entering) registers fun _ after => ∃ cache, after.cache = some cache ∧
          Listed (Change.wholes (started registers) (fun _ => True) entering) after cache ∧
            ((∀ c ∈ entering, ∀ schema, c ≠ .revalidated schema) → Listed (fun _ => True) after cache) := by
  have startable : registers.Startable := Or.inl rfl
  exact ⟨startable, registers_sound, entering_untroubled,
    changes_listed registers _ entering startable registers_sound entering_untroubled rfl rfl⟩

/-- When one register was validated again, the entry of a note holds what the other one says of it, but
lists the other no more. -/
theorem registers_forget :
    Gives (do
      discard (validateAll none)
      each Change.step [.revalidated "books"]) registers fun _ after =>
        ∃ cache entry, after.cache = some cache ∧ cache.notes.get? "Dune.md" = some entry ∧
          Concerns after.schemaSet (unnumbered "Dune.md") "loans" ∧ "loans" ∉ entry.schemas ∧
          ∃ v ∈ entry.violations, v.schema = "loans" := by
  have loans : register "loans" ∈ registers.schemaSet.schemas := by simp [registers, registered]
  have dune : unnumbered "Dune.md" ∈ registers.notes.notes := by simp [registers, registered]
  rw [gives_bind, gives_discard]
  refine ((validateAll_gives (Or.inl rfl) registers_sound).and
    (validateAll_keeps (Or.inl rfl) registers_sound rfl rfl)).mono ?_
  rintro _ mid ⟨⟨_, keeps, exact⟩, keeping⟩
  rw [show started registers = registers from rfl] at keeps
  rw [← keeps.schemaSet] at keeping loans
  rw [← keeps.notes] at dune
  have books : Concerns mid.schemaSet (unnumbered "Dune.md") "books" := by
    rw [keeps.schemaSet]
    exact ⟨register "books", by simp [registers, registered], register_accepts _ _, rfl⟩
  have sound := registers_sound.keeps keeps
  simp only [each, Change.step, Change.handle, Change.notes, gives_bind, gives_modify, gives_pure]
  refine (revalidate_lists exact (keeping.relax (Coverage.full_part _ fun _ => True)) sound dune trivial
    books).mono ?_
  rintro _ after ⟨more, exact, c, entry, cached, found, current, alone⟩
  have both := keeps.trans more
  rw [← more.schemaSet] at loans
  rw [← more.notes] at dune
  refine ⟨c, entry, cached, found, ⟨register "loans", loans, register_accepts _ _, rfl⟩, ?_, ?_⟩
  · intro listed
    exact absurd (alone "loans" listed) (by decide)
  · have checked : registers.check (unnumbered "Dune.md") (register "loans") =
        .ok [missingNumber "loans" "Dune.md"] := by
      unfold check
      rw [show registers.schemaSet.registry.validate (unnumbered "Dune.md").id (unnumbered "Dune.md").frontmatter
        (register "loans") registers.options.checkUnknown = _ from valid_unnumbered "loans" "Dune.md"]
      rfl
    have said := exact.own_eq loans (unnumbered "Dune.md").id
    rw [ownOf_accepted (sound.keeps more).notes (mem_chosen.2 ⟨dune, register_accepts _ _⟩), both.alike.found,
      found_of_check checked, ← current] at said
    have inside : missingNumber "loans" "Dune.md" ∈ own (register "loans").id entry.violations := by
      rw [said]
      simp
    exact ⟨missingNumber "loans" "Dune.md", (ViolationStore.mem_own.1 inside).1, rfl⟩

end Engine
end VaultSchema
