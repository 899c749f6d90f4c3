import VaultSchema.Proofs.Cache.Loading

/-! Loading is all or nothing. A cache takes over just what its blob tells, or stays as it is, and a
new cache that stays as it is has everything validated. Only a time of change that is an integer
beyond all doubles breaks the loading off. -/

set_option autoImplicit false

namespace VaultSchema

open Outcome (Within within_ok within_error within_mapM)

namespace Value

theorem literals_eq_mapM (items : List Value) : literals items = items.mapM literal := by
  induction items with
  | nil => rfl
  | cons v rest ih => rw [literals, ih, List.mapM_cons]

theorem exists_entryLiterals {m : Entries} (texts : ∀ e ∈ m, ∃ key, e.1 = .text key)
    (each : ∀ e ∈ m, ∃ text, e.2.literal = .ok text) : ∃ lines, entryLiterals m = .ok lines := by
  induction m with
  | nil => exact ⟨[], rfl⟩
  | cons e rest ih =>
    obtain ⟨key, v⟩ := e
    obtain ⟨name, rfl⟩ := texts (key, v) (by simp)
    obtain ⟨text, spelt⟩ := each (.text name, v) (by simp)
    obtain ⟨others, spells⟩ := ih (fun d mem => texts d (by simp [mem])) fun d mem => each d (by simp [mem])
    exact ⟨_ :: others, by rw [entryLiterals, spelt, spells]; rfl⟩

theorem Plain.exists_literal {v : Value} (plain : v.Plain) : ∃ text, v.literal = .ok text := by
  induction plain with
  | null => exact ⟨_, by rw [literal]; rfl⟩
  | bool b => exact ⟨_, by rw [literal]; rfl⟩
  | int i short => exact ⟨_, by rw [literal]; exact integerText_ok short⟩
  | float x _ => exact ⟨_, by rw [literal]; rfl⟩
  | text s => exact ⟨_, by rw [literal]; rfl⟩
  | list items _ ih =>
    obtain ⟨texts, spelt⟩ := Outcome.exists_mapM ih
    exact ⟨_, by rw [literal, literals_eq_mapM, spelt]; rfl⟩
  | mapping entries texts _ _ ih =>
    obtain ⟨lines, spelt⟩ := exists_entryLiterals texts ih
    exact ⟨_, by rw [literal, spelt]; rfl⟩

theorem Plain.exists_spelling {v : Value} (plain : v.Plain) : ∃ text, v.spelling = .ok text := by
  cases plain with
  | text s => exact ⟨s, rfl⟩
  | null => exact Plain.null.exists_literal
  | bool b => exact (Plain.bool b).exists_literal
  | int i short => exact (Plain.int i short).exists_literal
  | float x held => exact (Plain.float x held).exists_literal
  | list items each => exact (Plain.list items each).exists_literal
  | mapping entries texts distinct each => exact (Plain.mapping entries texts distinct each).exists_literal

theorem Plain.within_spelling {v : Value} (plain : v.Plain) {P : StoredFault → Prop} :
    Within P (v.spelling.mapError StoredFault.value) := by
  obtain ⟨text, spelt⟩ := plain.exists_spelling
  rw [spelt]
  exact within_ok text

end Value

namespace CachedNote

theorem readTime_within {v : Value} (timely : ∀ i, v = .int i → (Binary64.ofInt? i).isSome = true) :
    Within (· = .malformed) (readTime v) := by
  unfold readTime
  split
  · exact within_ok _
  · exact within_ok _
  · rename_i i
    obtain ⟨x, nearest⟩ := Option.isSome_iff_exists.1 (timely i rfl)
    rw [nearest]
    exact within_ok x
  · rename_i s
    cases Decimal.readLoose? s with
    | none => exact within_error.2 rfl
    | some x => exact within_ok x
  · exact within_error.2 rfl

theorem readMembers_within (v : Value) : Within (· = .malformed) (readMembers v) := by
  unfold readMembers
  split
  · exact within_ok _
  · exact within_ok _
  · exact within_ok _
  · exact within_error.2 rfl

theorem readViolation_within (v : Value) : Within (· = .malformed) (readViolation v) := by
  unfold readViolation
  split
  · exact Outcome.within_mapError.2 fun _ _ => rfl
  · exact within_error.2 rfl

theorem ofValue_within {v : Value} (plain : v.Plain) (timely : ∀ m i, v = .mapping m →
    Entries.get? "mtime" m = some (.int i) → (Binary64.ofInt? i).isSome = true) :
    Within (· = .malformed) (ofValue v) := by
  cases v with
  | scalar s => exact within_error.2 rfl
  | sequence kind items => exact within_error.2 rfl
  | mapping m =>
    have time : Within (· = .malformed) (((Entries.get? "mtime" m).map readTime).getD (.error .malformed)) := by
      cases there : Entries.get? "mtime" m with
      | none => exact within_error.2 rfl
      | some w => exact readTime_within fun i same => timely m i rfl (same ▸ there)
    refine time.bind fun _ _ => ?_
    refine (readMembers_within _).bind fun names members => ?_
    have spelt := (readMembers_eq_ok.1 members).plain (plain_getD plain _)
    refine (within_mapM fun w mem => (spelt w mem).within_spelling).bind fun _ _ => ?_
    refine (readMembers_within _).bind fun _ _ => ?_
    exact (within_mapM fun w _ => readViolation_within w).map _

theorem ofValue_of_readTime {m : Entries} {v : Value} {f : StoredFault} (there : Entries.get? "mtime" m = some v)
    (fault : readTime v = .error f) : ofValue (.mapping m) = .error f := by
  unfold ofValue
  dsimp only
  rw [there, Option.map_some, Option.getD_some, fault]
  rfl

end CachedNote

namespace Cache

/-- No entry of a text is dated by an integer beyond all doubles. -/
def Timely (text : String) : Prop :=
  ∀ m rows key entry i, Json.read? text = some (.mapping m) → Entries.get? "documents" m = some (.mapping rows) →
    (key, .mapping entry) ∈ rows → Entries.get? "mtime" entry = some (.int i) → (Binary64.ofInt? i).isSome = true

theorem section?_within (key : String) (m : Entries) : Within (· = .malformed) (section? key m) := by
  unfold section?
  split
  · exact within_ok _
  · exact within_ok _
  · exact within_error.2 rfl

theorem readRow_within {α : Type} {read : Value → Except StoredFault α} {m : Entries}
    (plain : (Value.mapping m).Plain) (values : ∀ e ∈ m, Within (· = .malformed) (read e.2)) :
    ∀ e ∈ m, Within (· = .malformed) (readRow read e) := by
  intro e mem
  cases plain with
  | mapping _ texts _ _ =>
    obtain ⟨key, same⟩ := texts e mem
    unfold readRow
    rw [same]
    exact (values e mem).map _

theorem takeOver_within (c : Cache) {text : String} (timely : Timely text) {v : Value}
    (read : Json.read? text = some v) : Within (· = .malformed) (c.takeOver v) := by
  have plain := Json.plain_read? read
  cases v with
  | scalar s => exact within_error.2 rfl
  | sequence kind items => exact within_error.2 rfl
  | mapping m =>
    unfold takeOver
    dsimp only
    split
    · exact within_error.2 rfl
    · refine (section?_within _ m).bind fun rows documents => ?_
      have documents := section?_eq_ok.1 documents
      have entries : ∀ e ∈ rows, Within (· = .malformed) (CachedNote.ofValue e.2) := by
        rintro ⟨key, value⟩ mem
        have kept : value.Plain := by
          cases documents.plain plain with
          | mapping _ _ _ each => exact each _ mem
        refine CachedNote.ofValue_within kept fun entry i same dated => ?_
        dsimp only at same
        subst same
        rcases documents with there | ⟨_, rfl⟩
        · exact timely m rows key entry i read there mem dated
        · cases mem
      refine (within_mapM (readRow_within (documents.plain plain) entries)).bind fun _ _ => ?_
      refine (section?_within _ m).bind fun prints fingerprints => ?_
      have fingerprints := (section?_eq_ok.1 fingerprints).plain plain
      refine (within_mapM (readRow_within fingerprints ?_)).map _
      intro e mem
      cases fingerprints with
      | mapping _ _ _ each => exact (each e mem).within_spelling

def Tells (b : BlobStore) (made : Option String) (hashes : Table String String) (notes : Table String CachedNote) :
    Prop :=
  ∃ text m, b.read blobName = .found text ∧ Json.read? text = some (.mapping m) ∧ ToldBy made hashes notes m

theorem load_of_tells {c : Cache} {b : BlobStore} {made : Option String} {hashes : Table String String}
    {notes : Table String CachedNote} (tells : Tells b made hashes notes) :
    c.load b = .ok ({ c with made := made, hashes := hashes, notes := notes }, true) := by
  obtain ⟨text, m, found, read, told⟩ := tells
  have taken : c.takeOver (.mapping m) = .ok _ := takeOver_eq_ok.2 ⟨m, made, hashes, notes, rfl, told, rfl⟩
  unfold load
  simp only [found, read, Option.map_some, Option.getD_some, taken]

theorem load_of_not_tells {c : Cache} {b : BlobStore} (legible : b.read blobName ≠ .garbled)
    (timely : ∀ text, b.read blobName = .found text → Timely text)
    (none : ∀ made hashes notes, ¬Tells b made hashes notes) : c.load b = .ok (c, false) := by
  unfold load
  cases stored : b.read blobName with
  | absent => rfl
  | failed => rfl
  | garbled => exact (legible stored).elim
  | found text =>
    dsimp only
    cases read : Json.read? text with
    | none => rfl
    | some v =>
      rw [Option.map_some, Option.getD_some]
      cases taken : c.takeOver v with
      | ok y =>
        obtain ⟨m, made, hashes, notes, rfl, told, _⟩ := takeOver_eq_ok.1 taken
        exact (none made hashes notes ⟨text, m, stored, read, told⟩).elim
      | error f =>
        obtain rfl : f = .malformed := takeOver_within c (timely text stored) read f taken
        rfl

/-- Loading ends, with all that the blob tells or, where it tells nothing, with the cache as it was; and then a
new cache has everything validated. -/
theorem load_whole (c : Cache) (b : BlobStore) (legible : b.read blobName ≠ .garbled)
    (timely : ∀ text, b.read blobName = .found text → Timely text) :
    ∃ y read, c.load b = .ok (y, read) ∧
      (read = true ↔ ∃ made hashes notes, Tells b made hashes notes) ∧
      (∀ made hashes notes, Tells b made hashes notes →
        y = { c with made := made, hashes := hashes, notes := notes }) ∧
      (read = false → y = c ∧
        (c.made = none → ∀ set ds, y.analyze set ds = .ok (y.clear, { full := true }))) := by
  by_cases told : ∃ made hashes notes, Tells b made hashes notes
  · obtain ⟨made, hashes, notes, tells⟩ := told
    have loads := load_of_tells (c := c) tells
    refine ⟨_, true, loads, ⟨fun _ => ⟨made, hashes, notes, tells⟩, fun _ => rfl⟩, ?_, nofun⟩
    intro made' hashes' notes' tells'
    have loads' := loads.symm.trans (load_of_tells tells')
    simpa using loads'
  · have loads : c.load b = .ok (c, false) :=
      load_of_not_tells legible timely fun made hashes notes tells => told ⟨made, hashes, notes, tells⟩
    refine ⟨c, false, loads, ⟨nofun, fun some => (told some).elim⟩, ?_, fun _ => ⟨rfl, fun new set ds => ?_⟩⟩
    · exact fun made hashes notes tells => (told ⟨made, hashes, notes, tells⟩).elim
    · unfold analyze
      rw [if_pos (by simp [new])]

def single (entry : Entries) : Entries :=
  [(.text "version", .int version), (.text "documents", .mapping [(.text "a.md", .mapping entry)])]

theorem isCurrent_single (entry : Entries) : isCurrent (single entry) = true :=
  isCurrent_iff.2 ⟨.int version, rfl, by simp [Scalar.sameKey, Scalar.rank?]⟩

def holding (text : String) : BlobStore := { blobs := ⟨[(blobName, .text text)]⟩ }

theorem exists_single {entry : Entries} (plain : (Value.mapping entry).Plain) :
    ∃ text, Json.write .spaced (.mapping (single entry)) = .ok text ∧
      Json.read? text = some (.mapping (single entry)) := by
  have whole : (Value.mapping (single entry)).Plain := by
    change (Payload.record [("version", .int version), ("documents", Payload.record [("a.md", .mapping entry)])]).Plain
    have documents : (Payload.record [("a.md", .mapping entry)]).Plain :=
      Payload.plain_record (by simp) (by simpa using plain)
    exact Payload.plain_record (by simp) (by simpa using ⟨.int version (by decide), documents⟩)
  obtain ⟨text, written⟩ := whole.exists_writeAt .spaced 0
  exact ⟨text, written, Json.read?_write Json.loose_spaced whole written⟩

/-- An entry of another hand: a truth value for a time, and a number for a path. -/
def foreign : Entries :=
  [(.text "mtime", .bool true), (.text "violations", .list [.mapping [(.text "document_id", .int 5),
    (.text "schema_id", .text ""), (.text "field_path", .text ""), (.text "kind", .text "unknown_field"),
    (.text "message", .text "")]])]

theorem load_whole_foreign : ∃ text, Json.write .spaced (.mapping (single foreign)) = .ok text ∧
    (holding text).read blobName ≠ .garbled ∧ (∀ s, (holding text).read blobName = .found s → Timely s) ∧
      ∃ y, Cache.load { settings := "now" } (holding text) = .ok (y, true) ∧
        y.notes.rows =
          [("a.md", ⟨.one, [], [⟨.int 5, .text "", .text "", .unknownField, .text "", .null, .null⟩]⟩)] := by
  have plain : (Value.mapping foreign).Plain := by
    change (Payload.record [("mtime", .bool true), ("violations", .list [Payload.record [
      ("document_id", .int 5), ("schema_id", .text ""), ("field_path", .text ""), ("kind", .text "unknown_field"),
      ("message", .text "")]])]).Plain
    refine Payload.plain_record (by simp) ?_
    simp only [List.mem_cons, List.not_mem_nil, or_false, forall_eq_or_imp, forall_eq]
    refine ⟨.bool true, .list _ ?_⟩
    simp only [List.mem_singleton, forall_eq]
    refine Payload.plain_record (by simp) ?_
    simp only [List.mem_cons, List.not_mem_nil, or_false, forall_eq_or_imp, forall_eq]
    exact ⟨.int 5 (by decide), .text _, .text _, .text _, .text _⟩
  obtain ⟨text, written, read⟩ := exists_single plain
  have legible : (holding text).read blobName ≠ .garbled := nofun
  have timely : ∀ s, (holding text).read blobName = .found s → Timely s := by
    rintro _ ⟨⟩ m rows key entry i whole documents mem dated
    obtain rfl : single foreign = m := Value.mapping.inj (Option.some.inj (read.symm.trans whole))
    cases documents
    cases List.mem_singleton.1 mem
    cases dated
  have tells : Tells (holding text) none ⟨[]⟩
      ⟨[("a.md", ⟨.one, [], [⟨.int 5, .text "", .text "", .unknownField, .text "", .null, .null⟩]⟩)]⟩ := by
    refine ⟨text, single foreign, rfl, read, isCurrent_iff.1 (isCurrent_single foreign), ?_,
      ⟨[], .inr ⟨rfl, rfl⟩, .nil⟩,
      ⟨[(.text "a.md", .mapping foreign)], .inl rfl, .cons ⟨rfl, foreign, rfl, ?_⟩ .nil⟩⟩
    · exact fun s => ⟨nofun, nofun⟩
    · refine ⟨⟨.bool true, rfl, .bool true⟩, ⟨[], .sequence .list [], .nil⟩,
        ⟨_, .sequence .list _, .cons ⟨_, rfl, ?_⟩ .nil⟩⟩
      exact ⟨rfl, rfl, rfl, rfl, rfl, rfl, rfl⟩
  obtain ⟨y, taken, loads, exact, takes, _⟩ := load_whole { settings := "now" } (holding text) legible timely
  obtain rfl : taken = true := exact.2 ⟨_, _, _, tells⟩
  exact ⟨text, written, legible, timely, y, loads, by rw [takes _ _ _ tells]⟩

/-- An entry whose time of change is a number beyond all doubles breaks the loading off. -/
theorem late_breaks_off (c : Cache) {time : Int} (short : Short time) (huge : Binary64.ofInt? time = none) :
    ∃ text, Json.write .spaced (.mapping (single [(.text "mtime", .int time)])) = .ok text ∧
      c.load (holding text) = .error .numberTooLarge := by
  have plain : (Value.mapping [(.text "mtime", .int time)]).Plain := by
    change (Payload.record [("mtime", .int time)]).Plain
    exact Payload.plain_record (by simp) (by simpa using .int _ short)
  obtain ⟨text, written, read⟩ := exists_single plain
  have beyond : CachedNote.readTime (.int time) = .error (.value .numberTooLarge) := by
    rw [CachedNote.readTime, huge]
    rfl
  have dated := CachedNote.ofValue_of_readTime (m := [(.text "mtime", .int time)]) rfl beyond
  have row : readRow CachedNote.ofValue (.text "a.md", .mapping [(.text "mtime", .int time)]) =
      .error (.value .numberTooLarge) := by
    rw [readRow, dated]
    rfl
  have taken : c.takeOver (.mapping (single [(.text "mtime", .int time)])) = .error (.value .numberTooLarge) := by
    unfold takeOver
    dsimp only
    rw [if_neg (by simp [isCurrent_single])]
    refine Outcome.bind_eq_error.2 (Or.inr ⟨[(.text "a.md", .mapping [(.text "mtime", .int time)])], rfl, ?_⟩)
    refine Outcome.bind_eq_error.2 (Or.inl ?_)
    rw [List.mapM_cons, row]
    rfl
  have found : (holding text).read blobName = .found text := rfl
  refine ⟨text, written, ?_⟩
  unfold load
  rw [found]
  dsimp only
  rw [read, Option.map_some, Option.getD_some, taken]

theorem late_breaks_off_digits : ∃ text,
    Json.write .spaced (.mapping (single [(.text "mtime", .int (10 ^ 309))])) = .ok text ∧
      Cache.load { settings := "now" } (holding text) = .error .numberTooLarge :=
  late_breaks_off _ (short_power (by decide)) (by decide +kernel)

end Cache
end VaultSchema
