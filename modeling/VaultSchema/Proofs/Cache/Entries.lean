import VaultSchema.Cache.Basic
import VaultSchema.Proofs.Table
import VaultSchema.Proofs.Text.Order

set_option autoImplicit false

namespace VaultSchema.Cache

/-- A cache differs in the entries alone, and has something to save if the other one had. -/
structure SameFrame (c after : Cache) : Prop where
  settings : after.settings = c.settings
  made : after.made = c.made
  hashes : after.hashes = c.hashes
  dirty : c.writer.dirty = true → after.writer.dirty = true

theorem SameFrame.refl (c : Cache) : SameFrame c c := ⟨rfl, rfl, rfl, fun h => h⟩

theorem SameFrame.changed (c : Cache) (notes : Table String CachedNote) :
    SameFrame c (changed { c with notes := notes }) := ⟨rfl, rfl, rfl, fun _ => rfl⟩

theorem get?_update (c : Cache) (id : String) (mtime : Binary64) (schemas : List String)
    (vs : List Violation) (j : String) : (c.update id mtime schemas vs).notes.get? j =
      if id = j then some (.ofViolations mtime (Text.sorted (Text.distinct schemas)) vs) else c.notes.get? j :=
  Table.get?_put ..

theorem sameFrame_update (c : Cache) (id : String) (mtime : Binary64) (schemas : List String)
    (vs : List Violation) : SameFrame c (c.update id mtime schemas vs) := .changed c _

theorem get?_updateViolations (c : Cache) (id : String) (vs : List Violation) (j : String) :
    (c.updateViolations id vs).notes.get? j =
      if id = j then (c.notes.get? id).map (·.withViolations vs) else c.notes.get? j := by
  unfold updateViolations
  cases entry : c.notes.get? id with
  | none =>
    by_cases here : id = j
    · subst here
      simp [entry]
    · simp [here]
  | some e => exact Table.get?_put ..

theorem sameFrame_updateViolations (c : Cache) (id : String) (vs : List Violation) :
    SameFrame c (c.updateViolations id vs) := by
  unfold updateViolations
  split
  · exact .refl c
  · exact .changed c _

theorem get?_remove (c : Cache) (id j : String) :
    (c.remove id).notes.get? j = if id = j then none else c.notes.get? j := by
  unfold remove Table.has
  cases entry : c.notes.get? id with
  | none =>
    by_cases here : id = j
    · subst here
      simp [entry]
    · simp [here]
  | some e => exact Table.get?_drop ..

theorem sameFrame_remove (c : Cache) (id : String) : SameFrame c (c.remove id) := by
  unfold remove
  split
  · exact .changed c _
  · exact .refl c

theorem get?_rename (c : Cache) {old new j : String} (other : new ≠ j) :
    (c.rename old new).notes.get? j = if old = j then none else c.notes.get? j := by
  unfold rename
  cases entry : c.notes.get? old with
  | none =>
    by_cases here : old = j
    · subst here
      simp [entry]
    · simp [here]
  | some e =>
    dsimp only [changed]
    rw [Table.get?_put, if_neg other, Table.get?_drop]

theorem sameFrame_rename (c : Cache) (old new : String) : SameFrame c (c.rename old new) := by
  unfold rename
  split
  · exact .refl c
  · exact .changed c _

theorem sameFrame_invalidate (c : Cache) (schema : String) : SameFrame c (c.invalidate schema).1 := by
  unfold invalidate
  dsimp only
  split
  · exact .refl c
  · exact .changed c _

section distinct

variable {c : Cache}

theorem get?_invalidate (h : c.notes.keys.Nodup) (schema id : String) (entry : CachedNote) :
    (c.invalidate schema).1.notes.get? id = some entry ↔
      c.notes.get? id = some entry ∧ schema ∉ entry.schemas := by
  unfold invalidate
  dsimp only
  split
  · rename_i untouched
    rw [List.isEmpty_iff, List.map_eq_nil_iff, List.filter_eq_nil_iff] at untouched
    refine ⟨fun found => ⟨found, fun listed => ?_⟩, fun both => both.1⟩
    exact untouched _ ((Table.mem_rows h).2 found) (by simpa using listed)
  · dsimp only [changed]
    rw [Table.get?_keep h, Option.filter_eq_some_iff]
    simp

theorem nodup_invalidate (h : c.notes.keys.Nodup) (schema : String) :
    (c.invalidate schema).1.notes.keys.Nodup := by
  unfold invalidate
  dsimp only
  split
  · exact h
  · exact Table.nodup_keep h _

theorem nodup_update (h : c.notes.keys.Nodup) (id : String) (mtime : Binary64) (schemas : List String)
    (vs : List Violation) : (c.update id mtime schemas vs).notes.keys.Nodup := Table.nodup_put h _ _

theorem nodup_updateViolations (h : c.notes.keys.Nodup) (id : String) (vs : List Violation) :
    (c.updateViolations id vs).notes.keys.Nodup := by
  unfold updateViolations
  split
  · exact h
  · exact Table.nodup_put h _ _

theorem nodup_remove (h : c.notes.keys.Nodup) (id : String) : (c.remove id).notes.keys.Nodup := by
  unfold remove
  split
  · exact Table.nodup_drop h _
  · exact h

theorem nodup_rename (h : c.notes.keys.Nodup) (old new : String) :
    (c.rename old new).notes.keys.Nodup := by
  unfold rename
  split
  · exact h
  · exact Table.nodup_put (Table.nodup_drop h _) _ _

end distinct

theorem mem_addSchema {c : Cache} {id schema other : String} {mtime : Binary64} :
    other ∈ Text.sorted (Text.distinct ((if c.isFresh id mtime then c.schemasOf id else []) ++ [schema])) ↔
      other = schema ∨ ∃ e, c.notes.get? id = some e ∧ e.mtime.equal mtime = true ∧ other ∈ e.schemas := by
  unfold isFresh schemasOf
  cases entry : c.notes.get? id with
  | none => simp
  | some e =>
    cases fresh : e.mtime.equal mtime <;> simp [fresh, or_comm]

theorem filter_flatMap_rows (id : String) {rows : List (String × CachedNote)} (distinct : (rows.map Prod.fst).Nodup)
    (filed : ∀ r ∈ rows, ∀ v ∈ r.2.violations, v.document = r.1) :
    ((rows.map Prod.snd).flatMap (·.violations)).filter (·.document == id) =
      (((rows.find? (·.1 = id)).map Prod.snd).map (·.violations)).getD [] := by
  induction rows with
  | nil => rfl
  | cons r rows ih =>
    obtain ⟨new, distinct⟩ := List.nodup_cons.1 distinct
    rw [List.map_cons, List.flatMap_cons, List.filter_append, ih distinct fun q mem => filed q (by simp [mem])]
    by_cases here : r.1 = id
    · subst here
      have none : rows.find? (fun q => decide (q.1 = r.1)) = none := by
        rw [List.find?_eq_none]
        intro q mem same
        exact new (List.mem_map.2 ⟨q, mem, by simpa using same⟩)
      have all : r.2.violations.filter (·.document == r.1) = r.2.violations := by
        rw [List.filter_eq_self]
        intro v mem
        simp [filed r (by simp) v mem]
      simp [none, all]
    · have gone : r.2.violations.filter (·.document == id) = [] := by
        rw [List.filter_eq_nil_iff]
        intro v mem
        simp [filed r (by simp) v mem, here]
      simp [gone, here]

theorem filter_violations {c : Cache} (distinct : c.notes.keys.Nodup)
    (filed : ∀ id entry, c.notes.get? id = some entry → ∀ v ∈ entry.violations, v.document = id)
    (id : String) : c.violations.filter (·.document == id) =
      ((c.notes.get? id).map (·.violations)).getD [] :=
  filter_flatMap_rows id distinct fun r mem => filed r.1 r.2 ((Table.mem_rows distinct).1 mem)

end VaultSchema.Cache
