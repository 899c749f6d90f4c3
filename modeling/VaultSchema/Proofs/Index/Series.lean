import Mathlib
import VaultSchema.Proofs.Index.Convergence

set_option autoImplicit false

namespace VaultSchema

/-- What may be done to the index of a vault. -/
inductive IndexChange where
  | loaded (b : BlobStore)
  | rebuilt (s : NoteStore) (b : BlobStore)
  | reconciled (s : NoteStore)
  | updated (d : Document)
  | removed (id : String)
  | renamed (old new : String)

namespace IndexChange

def step (x : StoredIndex) : IndexChange → StoredIndex
  | loaded b =>
    match x.load b with
    | .ok (some y) => y
    | .ok none | .error _ => x
  | rebuilt s b => (x.rebuild s b).value
  | reconciled s => (x.reconcile s).1
  | updated d => x.update d
  | removed id => x.remove id
  | renamed old new => x.rename old new

/-- A note that is renamed has no tags, or all the tags that are known at its new path. -/
def Allowed (x : StoredIndex) : IndexChange → Prop
  | renamed old new => x.index.tagsFor (.text old) = [] ∨
      ∀ t ∈ x.index.tagsFor (.text new), t ∈ x.index.tagsFor (.text old)
  | reconciled s => s.Distinct
  | loaded _ | rebuilt _ _ | updated _ | removed _ => True

def AllAllowed (x : StoredIndex) : List IndexChange → Prop
  | [] => True
  | c :: rest => c.Allowed x ∧ AllAllowed (c.step x) rest

end IndexChange

namespace StoredIndex

variable {x : StoredIndex}

theorem index_rebuild (s : NoteStore) (b : BlobStore) : (x.rebuild s b).value.index = TagIndex.ofNotes s := by
  unfold rebuild
  dsimp only
  split <;> rfl

theorem load_coherent {b : BlobStore} {y : StoredIndex} (loaded : x.load b = .ok (some y)) :
    y.index.Coherent := by
  unfold load at loaded
  split at loaded
  · obtain ⟨index, read, rfl⟩ := Option.map_eq_some_iff.1 (Except.ok.inj loaded)
    exact TagIndex.ofText?_coherent read
  · cases loaded
  · cases loaded
  · cases loaded

theorem step_coherent (h : x.index.Coherent) {c : IndexChange} (allowed : c.Allowed x) :
    (c.step x).index.Coherent := by
  cases c with
  | loaded b =>
    unfold IndexChange.step
    dsimp only
    split
    · rename_i y read
      exact load_coherent read
    · exact h
    · exact h
  | rebuilt s b =>
    change (x.rebuild s b).value.index.Coherent
    rw [index_rebuild]
    exact (TagIndex.ofNotes_coherent s).1
  | reconciled s => exact (h.reconcile allowed).1
  | updated d => exact (h.update d).1
  | removed id => exact (h.remove (.text id)).1
  | renamed old new => exact (h.rename_iff (.text old) (.text new)).2 allowed

theorem steps_coherent (h : x.index.Coherent) {cs : List IndexChange}
    (allowed : IndexChange.AllAllowed x cs) : (cs.foldl IndexChange.step x).index.Coherent := by
  induction cs generalizing x with
  | nil => exact h
  | cons c rest ih => exact ih (step_coherent h allowed.1) allowed.2

/-- After a series of operations a note is a member of a tag just if the tag is one of the note's, no
tag is without members and no note without tags; and bringing the index up to date with a store gives
the rows of an index built from it. -/
theorem series_coherent (cs : List IndexChange) (allowed : IndexChange.AllAllowed {} cs) :
    (cs.foldl IndexChange.step {}).index.Coherent ∧ ∀ s : NoteStore, s.Distinct →
      (((cs.foldl IndexChange.step {}).reconcile s).1.index.toRows = (TagIndex.ofNotes s).toRows ∧
        ∃ rows, (TagIndex.ofNotes s).toRows = .ok rows) := by
  have coherent := steps_coherent TagIndex.coherent_empty allowed
  exact ⟨coherent, fun s distinct => coherent.toRows_reconcile distinct⟩

def tagged (path tag : String) : Document := ⟨path, none, [tag], none, none⟩

def shelves : NoteStore := ⟨[tagged "Dune.md" "read", tagged "Emma.md" "lent"]⟩

/-- A book is moved to a path without tags, and the index is brought up to date. -/
theorem series_coherent_moved : IndexChange.AllAllowed {}
    [.rebuilt shelves {}, .renamed "Dune.md" "Arrakis.md"] ∧
      ([.rebuilt shelves {}, .renamed "Dune.md" "Arrakis.md"].foldl IndexChange.step {}).index.Coherent := by
  have allowed : IndexChange.AllAllowed {} [.rebuilt shelves {}, .renamed "Dune.md" "Arrakis.md"] := by
    refine ⟨trivial, Or.inr ?_, trivial⟩
    have untagged : (IndexChange.step {} (.rebuilt shelves {})).index.tagsFor (.text "Arrakis.md") = [] := by
      cbv
    rw [untagged]
    exact fun t mem => absurd mem List.not_mem_nil
  exact ⟨allowed, (series_coherent _ allowed).1⟩

/-- A book takes the place of another one, whose tag stays with its path for good. -/
theorem renamed_over_stays : ¬ ∀ cs : List IndexChange, (cs.foldl IndexChange.step {}).index.Coherent ∧
    ∀ s : NoteStore, s.Distinct →
      ((cs.foldl IndexChange.step {}).reconcile s).1.index.toRows = (TagIndex.ofNotes s).toRows := by
  intro all
  have rows := (all [.rebuilt shelves {}, .renamed "Dune.md" "Emma.md"]).2 ⟨[tagged "Emma.md" "read"]⟩
    (List.nodup_singleton _)
  have kept : (([.rebuilt shelves {}, .renamed "Dune.md" "Emma.md"].foldl IndexChange.step {}).reconcile
      ⟨[tagged "Emma.md" "read"]⟩).1.index.toRows =
        .ok [("lent", [.text "Emma.md"]), ("read", [.text "Emma.md"])] := by cbv
  have built : (TagIndex.ofNotes ⟨[tagged "Emma.md" "read"]⟩).toRows = .ok [("read", [.text "Emma.md"])] := by cbv
  rw [kept, built] at rows
  simp at rows

end StoredIndex
end VaultSchema
