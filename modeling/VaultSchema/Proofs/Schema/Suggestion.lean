import Mathlib
import VaultSchema.Schema.Inference
import VaultSchema.Proofs.Index.Convergence
import VaultSchema.Proofs.Json.Plain
import VaultSchema.Proofs.Schema.Agreement
import VaultSchema.Proofs.Schema.Order

/-! Notes and the declarations that they suggest. A note without null values conforms to what is
suggested by it as a template, or as the only note of a collection. A null value suggests the
unknown kind, of which null is not, and that is all that is ever wrong. -/

set_option autoImplicit false

namespace VaultSchema

def Entries.ofTexts (entries : List (String × Value)) : Entries := entries.map fun e => (.text e.1, e.2)

theorem filter_mark_eq_singleton {α β : Type} [BEq β] [LawfulBEq β] {mark : α → β} {l : List α}
    (nodup : (l.map mark).Nodup) {a : α} (mem : a ∈ l) : l.filter (mark · == mark a) = [a] := by
  induction l with
  | nil => cases mem
  | cons b rest ih =>
    obtain ⟨new, nodup⟩ := List.nodup_cons.1 nodup
    rcases List.mem_cons.1 mem with rfl | mem
    · have others : rest.filter (mark · == mark a) = [] := by
        refine List.filter_eq_nil_iff.2 fun c inside same => new ?_
        rw [← beq_iff_eq.1 same]
        exact List.mem_map_of_mem inside
      rw [List.filter_cons_of_pos (by simp), others]
    · have apart : mark b ≠ mark a := fun same => new (same ▸ List.mem_map_of_mem mem)
      rw [List.filter_cons_of_neg (by simpa using apart), ih nodup mem]

namespace Inference

/-- The keys of a note that are the note's own. -/
def own (entries : List (String × Value)) : List (String × Value) := entries.filter (·.1 != "position")

def suggestion (e : String × Value) : FieldSpec :=
  { name := e.1, type := .primitive e.2.suggestedKind, required := true }

def suggestions (entries : List (String × Value)) : List FieldSpec := (own entries).map suggestion

variable {entries : List (String × Value)}

theorem nodup_names (free : (entries.map fun e => Text.lower e.1).Nodup) : (entries.map Prod.fst).Nodup := by
  rw [← Function.comp_def, ← List.map_map] at free
  exact free.of_map _

theorem filter_ofTexts :
    (Entries.ofTexts entries).filter (fun e => !isHostKey e.1) = Entries.ofTexts (own entries) := by
  simp only [Entries.ofTexts, own, List.filter_map]
  rfl

theorem templateKind_nil (key : Scalar) (value : Value) : templateKind [] key value = value.suggestedKind := by
  unfold templateKind
  split <;> rename_i kind <;> simp_all

theorem fromTemplate_ofTexts (entries : List (String × Value)) :
    fromTemplate (.ofTexts entries) [] = .ok (suggestions entries) := by
  unfold fromTemplate
  rw [filter_ofTexts, Entries.ofTexts, List.map_map]
  refine collect_map fun e _ => ?_
  simp [Scalar.spelling, templateKind_nil, suggestion, bind, Except.bind, pure, Except.pure]

def Tells (e : String × Value) (o : Occurrence) : Prop :=
  o.name = e.1 ∧ o.kind = e.2.suggestedKind ∧ e.2.display = .ok o.shown

theorem occurrences_notes {notes : List (List (String × Value))} {os : List Occurrence} :
    occurrences (notes.map Entries.ofTexts) = .ok os ↔ List.Forall₂ Tells (own notes.flatten) os := by
  have flat : (notes.map Entries.ofTexts).flatten = Entries.ofTexts notes.flatten := List.map_flatten.symm
  unfold occurrences
  rw [flat, filter_ofTexts, collect_eq_ok_iff, Entries.ofTexts, List.map_map, List.forall₂_map_left_iff]
  refine iff_of_eq (congrArg (List.Forall₂ · _ _) ?_)
  funext e o
  obtain ⟨name, kind, shown⟩ := o
  cases displayed : e.2.display <;>
    simp [occurrence, Scalar.spelling, Tells, displayed, bind, Except.bind, pure, Except.pure, eq_comm]

theorem occurrences_ofTexts {os : List Occurrence} :
    occurrences [.ofTexts entries] = .ok os ↔ List.Forall₂ Tells (own entries) os := by
  rw [← List.flatten_singleton (l := entries), ← occurrences_notes, List.flatten_singleton]
  rfl

theorem exists_told (displays : ∀ e ∈ entries, ∃ shown, e.2.display = .ok shown) :
    ∃ os, List.Forall₂ Tells entries os := by
  refine ⟨entries.map fun e => ⟨e.1, e.2.suggestedKind, e.2.display.toOption.getD ""⟩, ?_⟩
  rw [List.forall₂_map_right_iff, List.forall₂_same]
  intro e mem
  obtain ⟨shown, displayed⟩ := displays e mem
  exact ⟨rfl, rfl, by rw [displayed]; rfl⟩

theorem names_of_told {os : List Occurrence} (told : List.Forall₂ Tells entries os) :
    os.map (·.name) = entries.map Prod.fst := by
  rw [← List.forall₂_eq_eq_eq, List.forall₂_map_left_iff, List.forall₂_map_right_iff]
  exact told.flip.imp fun _ _ tells => tells.1

theorem suggestedField?_single (o : Occurrence) (samples : Nat) :
    suggestedField? {} (.ofOccurrences 1 samples o.name [o]) =
      some { name := o.name, type := .primitive o.kind, required := true } := by
  have all : standing ({} : Limits).required ({} : Limits).optional (.ofOccurrences 1 samples o.name [o]) =
      .required := by
    unfold standing
    exact if_pos (by decide +kernel : ({} : Limits).required.lessOrEqual (.ofRatio false 1 1) = true)
  have kind : (Frequency.ofOccurrences 1 samples o.name [o]).dominantKind = o.kind := by
    have kinds : (Frequency.ofOccurrences 1 samples o.name [o]).kinds = [(o.kind, 1)] := by
      simp [Frequency.ofOccurrences, Text.distinct]
    rw [Frequency.dominantKind, kinds]
    cases o.kind <;> rfl
  rw [suggestedField?, all]
  simp only [kind]
  rfl

theorem frequencies_single {samples : Nat} {os : List Occurrence} (nodup : (os.map (·.name)).Nodup) :
    frequencies 1 samples os = os.map fun o => .ofOccurrences 1 samples o.name [o] := by
  have each : ((Text.distinct (os.map (·.name))).map fun n =>
      Frequency.ofOccurrences 1 samples n (os.filter (·.name == n))) =
        os.map fun o => .ofOccurrences 1 samples o.name [o] := by
    rw [Text.distinct_of_nodup nodup, List.map_map]
    refine List.map_congr_left fun o mem => ?_
    rw [Function.comp_apply, filter_mark_eq_singleton nodup mem]
  rw [frequencies, each]
  refine List.mergeSort_of_pairwise ?_
  rw [List.pairwise_map]
  exact List.pairwise_of_forall fun _ _ => by simp [Frequency.ofOccurrences]

/-- Several notes that are one: its own keys are suggested as they are by a template. -/
theorem fields_of_single {samples : Nat} {os : List Occurrence} (told : List.Forall₂ Tells (own entries) os)
    (nodup : ((own entries).map Prod.fst).Nodup) :
    (frequencies 1 samples os).filterMap (suggestedField? {}) = suggestions entries := by
  have names := names_of_told told
  have single : suggestedField? {} ∘ (fun o => .ofOccurrences 1 samples o.name [o]) =
      fun o : Occurrence => some { name := o.name, type := .primitive o.kind, required := true } := by
    funext o
    rw [Function.comp_apply, suggestedField?_single]
  rw [frequencies_single (names ▸ nodup), List.filterMap_map, single, suggestions, List.filterMap_eq_map']
  rw [← List.forall₂_eq_eq_eq, List.forall₂_map_left_iff, List.forall₂_map_right_iff]
  refine told.flip.imp fun o e tells => ?_
  obtain ⟨name, kind, -⟩ := tells
  rw [suggestion, name, kind]

theorem fromNotes_single (entries : List (String × Value)) (nodup : ((own entries).map Prod.fst).Nodup) :
    ((∃ found, fromNotes [Entries.ofTexts entries] {} = .ok found) ↔
        ∀ e ∈ own entries, ∃ shown, e.2.display = .ok shown) ∧
      ∀ found, fromNotes [Entries.ofTexts entries] {} = .ok found → found.fields = suggestions entries := by
  constructor
  · constructor
    · rintro ⟨found, made⟩ e mem
      obtain ⟨os, read, -⟩ := Outcome.bind_eq_ok.1 made
      obtain ⟨o, -, tells⟩ := Outcome.partner_right (occurrences_ofTexts.1 read) mem
      exact ⟨o.shown, tells.2.2⟩
    · intro displays
      obtain ⟨os, told⟩ := exists_told displays
      unfold fromNotes
      rw [occurrences_ofTexts.2 told]
      exact ⟨_, rfl⟩
  · intro found made
    obtain ⟨os, read, same⟩ := Outcome.bind_eq_ok.1 made
    cases same
    exact fields_of_single (occurrences_ofTexts.1 read) nodup

end Inference

namespace FoldedKeys

variable {entries : List (String × Value)}

theorem ofEntries_ofTexts (entries : List (String × Value)) :
    ofEntries (.ofTexts entries) = .ok ⟨entries.map fun e => (Text.lower e.1, .text e.1, e.2)⟩ := by
  have each : (Entries.ofTexts entries).mapM folded = .ok (entries.map fun e => (Text.lower e.1, .text e.1, e.2)) :=
    Outcome.mapM_map_eq_map fun e _ => rfl
  rw [ofEntries_eq_mapM, each]
  rfl

theorem value?_ofTexts (free : (entries.map fun e => Text.lower e.1).Nodup) {e : String × Value} (mem : e ∈ entries) :
    value? ⟨entries.map fun e => (Text.lower e.1, .text e.1, e.2)⟩ e.1 = some e.2 := by
  have found : entries.find? (fun d => Text.lower d.1 == Text.lower e.1) = some e := by
    rw [← List.head?_filter, filter_mark_eq_singleton free mem]
    rfl
  have under : find? ⟨entries.map fun e => (Text.lower e.1, .text e.1, e.2)⟩ e.1 = some (.text e.1, e.2) := by
    rw [find?, List.find?_map]
    simp only [Function.comp_def, found, Option.map_some]
  rw [value?, under]

end FoldedKeys

def Finding.nullUnknown (name : String) : Finding :=
  ⟨name, .typeMismatch, s!"Type mismatch: {name} (expected unknown, got null)", some "unknown", some "null"⟩

namespace Registry

open Inference

variable {entries : List (String × Value)} {top : FoldedKeys} (r : Registry)

theorem groupFindings_suggestion {e : String × Value} (present : top.value? e.1 = some e.2) :
    r.groupFindings top ⟨e.1, [suggestion e]⟩ = .ok (if e.2.isNull then [.nullUnknown e.1] else []) := by
  rw [show FieldGroup.mk e.1 [suggestion e] = ⟨(suggestion e).name, [suggestion e]⟩ from rfl,
    groupFindings_single (suggestion e) rfl present]
  change r.valueFindings top ⟨e.1, [suggestion e]⟩ e.1 e.2 = _
  cases null : e.2.isNull with
  | false =>
    have plain : plainFindings e.2 (suggestion e) e.1 = .ok [] := by
      unfold plainFindings
      split <;> rfl
    exact (r.valueFindings_primitive top rfl rfl rfl rfl (e.2.suggestedKind_accepts null) e.1).trans plain
  | true =>
    -- Null fits no type but its own, and what it suggests is another one.
    obtain ⟨name, value⟩ := e
    have null : value = .null := by
      simp only [Value.isNull] at null
      split at null
      · rfl
      · cases null
    subst null
    have unfit : r.variant? .null [suggestion (name, .null)] = none := by
      simp [variant?, suggestion, fits_primitive, Value.suggestedKind, PrimitiveKind.accepts]
    have missed : r.mismatch .null ⟨name, [suggestion (name, .null)]⟩ name = .nullUnknown name := by
      simp [mismatch, mismatchMessage, Finding.nullUnknown, FieldGroup.isWarned, FieldGroup.isRequired,
        FieldGroup.expectedTypes, suggestion, FieldType.name, PrimitiveKind.name, Value.suggestedKind, Value.kindName,
        String.append_assoc, toString]
    rw [valueFindings_step]
    simp only [unfit, missed]
    rfl

theorem groups_suggestions {s : Schema} (fields : s.fields = suggestions entries)
    (nodup : (entries.map Prod.fst).Nodup) :
    s.groups = (own entries).map fun e => ⟨e.1, [suggestion e]⟩ := by
  have nodup : (s.fields.map (·.name)).Nodup := by
    rw [fields, suggestions, List.map_map]
    exact nodup.sublist (List.filter_sublist.map _)
  rw [Schema.groups, FieldGroup.ofFields, Text.distinct_of_nodup nodup, fields, suggestions, List.map_map, List.map_map]
  refine List.map_congr_left fun e mem => ?_
  rw [fields] at nodup
  have single := filter_mark_eq_singleton nodup (List.mem_map_of_mem (f := suggestion) mem)
  exact congrArg (FieldGroup.mk e.1) single

theorem undeclaredKeys_suggestions {s : Schema} (fields : s.fields = suggestions entries) :
    undeclaredKeys s (.ofTexts entries) = .ok [] := by
  have names : ((Entries.ofTexts entries).filter fun e => !isHostKey e.1).mapM
      (fun e => Check.ofValue e.1.spelling) = .ok ((own entries).map Prod.fst) := by
    rw [filter_ofTexts]
    exact Outcome.mapM_map_eq_map fun e _ => rfl
  have declared : ((own entries).map Prod.fst).filter (fun n => !s.declares n) = [] := by
    refine List.filter_eq_nil_iff.2 fun n mem => ?_
    obtain ⟨e, own, rfl⟩ := List.mem_map.1 mem
    have declared : suggestion e ∈ s.fields := fields ▸ List.mem_map_of_mem own
    have declares : s.declares e.1 = true := List.any_eq_true.2 ⟨suggestion e, declared, beq_self_eq_true _⟩
    simp [declares]
  unfold undeclaredKeys
  rw [names]
  change Except.ok (List.map _ (List.filter _ _)) = _
  rw [declared]
  rfl

theorem validate_suggestions {s : Schema} (fields : s.fields = suggestions entries)
    (free : (entries.map fun e => Text.lower e.1).Nodup) (document : String) (checkUnknown : Bool) :
    r.validate document (some (.ofTexts entries)) s checkUnknown =
      .ok (((own entries).filter (·.2.isNull)).map fun e => (Finding.nullUnknown e.1).stamp document s.id) := by
  have each : s.groups.mapM (r.groupFindings ⟨entries.map fun e => (Text.lower e.1, .text e.1, e.2)⟩) =
      .ok ((own entries).map fun e => if e.2.isNull then [Finding.nullUnknown e.1] else []) := by
    rw [groups_suggestions fields (nodup_names free)]
    refine Outcome.mapM_map_eq_map fun e mem => ?_
    exact r.groupFindings_suggestion (FoldedKeys.value?_ofTexts free (List.mem_of_mem_filter mem))
  have all :
      ((own entries).map fun e => if e.2.isNull then [Finding.nullUnknown e.1] else []).flatten =
        ((own entries).filter (·.2.isNull)).map fun e => Finding.nullUnknown e.1 := by
    induction own entries with
    | nil => rfl
    | cons e rest ih => cases null : e.2.isNull <;> simp [null, ih]
  have found : r.findings s (.ofTexts entries) checkUnknown =
      .ok (((own entries).filter (·.2.isNull)).map fun e => Finding.nullUnknown e.1) := by
    refine Outcome.bind_eq_ok.2 ⟨_, by rw [FoldedKeys.ofEntries_ofTexts]; rfl, Outcome.bind_eq_ok.2 ⟨_, each, ?_⟩⟩
    rw [all]
    cases checkUnknown with
    | false => exact congrArg Except.ok (List.append_nil _)
    | true =>
      rw [undeclaredKeys_suggestions fields]
      exact congrArg Except.ok (List.append_nil _)
  refine Outcome.bind_eq_ok.2 ⟨_, found, ?_⟩
  rw [List.map_map]
  rfl

end Registry

namespace Inference

/-- A note is validated against what it suggests, as a template or as the only note of a collection. Each of its
own keys whose value is null is reported with its type, and nothing else is. A template always suggests something,
a collection just when all values can be shown. -/
theorem suggestions_met (r : Registry) {entries : List (String × Value)}
    (free : (entries.map fun e => Text.lower e.1).Nodup) :
    (∃ fields, fromTemplate (.ofTexts entries) [] = .ok fields) ∧
      ((∃ found, fromNotes [Entries.ofTexts entries] {} = .ok found) ↔
        ∀ e ∈ own entries, ∃ shown, e.2.display = .ok shown) ∧
      ∀ s : Schema,
        (fromTemplate (.ofTexts entries) [] = .ok s.fields ∨
          ∃ found, fromNotes [Entries.ofTexts entries] {} = .ok found ∧ s.fields = found.fields) →
        ∀ document checkUnknown,
          r.validate document (some (.ofTexts entries)) s checkUnknown =
              .ok (((own entries).filter (·.2.isNull)).map fun e => (Finding.nullUnknown e.1).stamp document s.id) ∧
            (r.validate document (some (.ofTexts entries)) s checkUnknown = .ok [] ↔
              ∀ e ∈ own entries, e.2.isNull = false) := by
  have names : ((own entries).map Prod.fst).Nodup := (nodup_names free).sublist (List.filter_sublist.map _)
  obtain ⟨returns, collected⟩ := fromNotes_single entries names
  have template := fromTemplate_ofTexts entries
  refine ⟨⟨_, template⟩, returns, fun s suggested document checkUnknown => ?_⟩
  have fields : s.fields = suggestions entries := by
    rcases suggested with suggested | ⟨found, made, same⟩
    · exact (Except.ok.inj (template.symm.trans suggested)).symm
    · exact same.trans (collected found made)
  have validated := r.validate_suggestions fields free document checkUnknown
  refine ⟨validated, ?_⟩
  rw [validated]
  simp

/-- A book of which nobody has said when it was lent. -/
def book : List (String × Value) :=
  [("title", .text "Dune"), ("Published", .text "1965-08-01"), ("tags", .list [.text "sf"]), ("lent", .null),
    ("position", .null)]

theorem suggestions_met_book :
    (book.map fun e => Text.lower e.1).Nodup ∧
      ∃ fields, fromTemplate (.ofTexts book) [] = .ok fields ∧
        ∀ (r : Registry) document checkUnknown,
          r.validate document (some (.ofTexts book)) { id := "books", query := "*", fields } checkUnknown =
            .ok [(Finding.nullUnknown "lent").stamp document "books"] := by
  have free : (book.map fun e => Text.lower e.1).Nodup := by decide +kernel
  refine ⟨free, suggestions book, fromTemplate_ofTexts book, fun r document checkUnknown => ?_⟩
  obtain ⟨-, -, met⟩ := suggestions_met r free
  obtain ⟨found, -⟩ := met { id := "books", query := "*", fields := suggestions book }
    (.inl (fromTemplate_ofTexts book)) document checkUnknown
  exact found

/-- A note whose only value is null does not conform to what it suggests. -/
theorem null_unmet :
    let lent : FieldSpec := { name := "lent", type := .primitive .unknown, required := true }
    fromTemplate [(.text "lent", .null)] [] = .ok [lent] ∧
      (∃ found, fromNotes [[(.text "lent", .null)]] {} = .ok found ∧ found.fields = [lent]) ∧
      ({} : Registry).validate "dune.md" (some [(.text "lent", .null)])
        { id := "books", query := "*", fields := [lent] } true = .ok [{
          document := "dune.md", schema := "books", field := "lent", kind := .typeMismatch
          message := "Type mismatch: lent (expected unknown, got null)"
          expected := some "unknown", actual := some "null" }] := by
  have free : ([("lent", Value.null)].map fun e => Text.lower e.1).Nodup := List.nodup_singleton _
  refine ⟨rfl, ?_, Registry.validate_suggestions {} rfl free "dune.md" true⟩
  obtain ⟨returns, collected⟩ := fromNotes_single [("lent", .null)] (List.nodup_singleton _)
  obtain ⟨found, made⟩ := returns.2 (by simp [own, Value.display, Value.displayScalar])
  exact ⟨found, made, collected found made⟩

end Inference
end VaultSchema
