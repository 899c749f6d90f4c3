import VaultSchema.Proofs.Cache.Analysis
import VaultSchema.Proofs.Cache.Printable

set_option autoImplicit false

namespace VaultSchema.Cache

variable {c after : Cache} {set : SchemaSet} {ds : List Document} {a : Analysis}

theorem exists_analyze_iff (made : c.made = some c.settings) (schemas : (set.schemas.map (·.id)).Nodup)
    (ds : List Document) : (∃ result, c.analyze set ds = .ok result) ↔
      ∀ s ∈ set.schemas, ∃ digest, s.fingerprint set.registry = .ok digest := by
  constructor
  · rintro ⟨result, found⟩ s mem
    unfold analyze at found
    rw [if_neg (by simp [made])] at found
    obtain ⟨hashes, current, _⟩ := Outcome.bind_eq_ok.1 found
    exact (prints_of_currentHashes schemas current).all mem
  · intro printed
    obtain ⟨after, a, found⟩ := exists_analyze made printed ds
    exact ⟨_, found⟩

/-- A note keeps its entry if it has not changed and no schema of the entry is stale. -/
theorem Parted.mem_keys (h : Parted set ds c after a) (distinct : (ds.map (·.id)).Nodup) {d : Document}
    (mem : d ∈ ds) : d.id ∈ after.notes.keys ↔ ∃ entry, (d.id, entry) ∈ c.notes.rows ∧
      d.mtime.equal entry.mtime = true ∧ ∀ schema ∈ entry.schemas, schema ∉ a.schemas := by
  unfold Table.keys
  rw [List.mem_map]
  constructor
  · rintro ⟨⟨_, entry⟩, kept, rfl⟩
    obtain ⟨row, other, there, same, dated, live⟩ := (h.kept _).1 kept
    rw [List.inj_on_of_nodup_map distinct there mem same] at dated
    exact ⟨entry, row, dated, live⟩
  · rintro ⟨entry, row, dated, live⟩
    exact ⟨(d.id, entry), (h.kept _).2 ⟨row, d, mem, rfl, dated, live⟩, rfl⟩

/-- An analysis under the same settings returns if every schema has a fingerprint. It keeps just the
entries that hold on, and each note that is there has an entry afterwards or is to be validated, but
not both. -/
theorem analyze_parts (made : c.made = some c.settings) (schemas : (set.schemas.map (·.id)).Nodup)
    (distinct : (ds.map (·.id)).Nodup) :
    ((∃ result, c.analyze set ds = .ok result) ↔
      ∀ s ∈ set.schemas, ∃ digest, s.fingerprint set.registry = .ok digest) ∧
    ∀ after a, c.analyze set ds = .ok (after, a) → Parted set ds c after a ∧
      ∀ d ∈ ds, (d.id ∈ after.notes.keys ↔ d.id ∉ a.notes) ∧
        (d.id ∈ after.notes.keys ↔ ∃ entry, (d.id, entry) ∈ c.notes.rows ∧
          d.mtime.equal entry.mtime = true ∧ ∀ schema ∈ entry.schemas, schema ∉ a.schemas) := by
  refine ⟨exists_analyze_iff made schemas ds, fun after a found => ?_⟩
  have parts := parted distinct schemas made found
  refine ⟨parts, fun d mem => ⟨?_, parts.mem_keys distinct mem⟩⟩
  have here : ∃ other ∈ ds, other.id = d.id := ⟨d, mem, rfl⟩
  rw [parts.notes, not_and_not_right]
  exact ⟨fun kept _ => kept, fun kept => kept here⟩

def novel : Schema := { id := "novels", query := "#novel", fields := [{ name := "isbn", type := .primitive .string }] }

/-- Results of a time when there was a schema of loans, the novels being as they are. -/
def borrowed (digest : String) : Cache where
  settings := "strict"
  made := some "strict"
  hashes := ⟨[("novels", digest), ("loans", "")]⟩
  notes := ⟨[("Dune.md", ⟨.zero, ["novels"], []⟩), ("Emma.md", ⟨.zero, ["loans", "novels"], []⟩),
    ("Ivanhoe.md", ⟨.finite false 1, ["novels"], []⟩), ("Ulysses.md", ⟨.zero, ["novels"], []⟩)]⟩

def returned : List Document :=
  ["Dune.md", "Emma.md", "Ivanhoe.md", "Walden.md"].map fun id => ⟨id, none, [], none, none⟩

/-- Of five notes one keeps its entry: the others were lent, have changed, are gone and are new. -/
theorem analyze_parts_borrowed : ∃ digest after a, novel.fingerprint {} = .ok digest ∧
    (borrowed digest).made = some (borrowed digest).settings ∧ ([novel].map (·.id)).Nodup ∧
    (returned.map (·.id)).Nodup ∧ (borrowed digest).analyze ⟨[novel], {}⟩ returned = .ok (after, a) ∧
    Parted ⟨[novel], {}⟩ returned (borrowed digest) after a ∧ (∀ id, id ∈ a.schemas ↔ id = "loans") ∧
    (∀ d ∈ returned, d.id ∈ after.notes.keys ↔ d.id = "Dune.md") ∧ ∀ id, id ∈ a.removed ↔ id = "Ulysses.md" := by
  have plain : ∀ f ∈ novel.fields, Payload.Bounded f := by
    simp only [novel, List.forall_mem_singleton]
    exact ⟨nofun, nofun, nofun⟩
  have unreferring : ({} : Registry).referencedTypes novel.fields = [] := by cbv
  obtain ⟨digest, printed⟩ := novel.exists_fingerprint (r := {}) plain (by simp [unreferring])
  have made : (borrowed digest).made = some (borrowed digest).settings := rfl
  have schemas : ((⟨[novel], {}⟩ : SchemaSet).schemas.map (·.id)).Nodup := List.nodup_singleton _
  have distinct : (returned.map (·.id)).Nodup := by decide
  obtain ⟨returns, parts⟩ := analyze_parts made schemas distinct
  obtain ⟨⟨after, a⟩, found⟩ := returns.2 (by simpa using ⟨digest, printed⟩)
  obtain ⟨parted, kept⟩ := parts after a found
  have stale : ∀ id, id ∈ a.schemas ↔ id = "loans" := by
    intro id
    have current : (borrowed digest).hashes.get? "novels" = some digest := rfl
    rw [parted.stale]
    constructor
    · rintro (⟨s, mem, rfl, differs⟩ | ⟨known, gone⟩)
      · obtain rfl := List.mem_singleton.1 mem
        exact (differs digest printed current).elim
      · have other := gone novel (List.mem_singleton_self _)
        have either : id = "novels" ∨ id = "loans" := by simpa [borrowed, Table.keys] using known
        exact either.resolve_left other.symm
    · rintro rfl
      exact Or.inr ⟨by simp [borrowed, Table.keys], by simp [novel]⟩
  have same : ∀ id, (⟨id, none, [], none, none⟩ : Document).mtime.equal .zero = true := fun _ => rfl
  have moved : ∀ id, (⟨id, none, [], none, none⟩ : Document).mtime.equal (.finite false 1) = false :=
    fun _ => rfl
  refine ⟨digest, after, a, printed, made, schemas, distinct, found, parted, stale, fun d mem => ?_, fun id => ?_⟩
  · rw [(kept d mem).2]
    simp only [returned, List.map_cons, List.map_nil, List.mem_cons, List.not_mem_nil, or_false] at mem
    rcases mem with rfl | rfl | rfl | rfl <;> simp [borrowed, stale, same, moved]
  · rw [parted.removed]
    simp only [borrowed, returned, Table.keys, List.map_cons, List.map_nil, List.mem_cons, List.not_mem_nil,
      or_false, forall_eq_or_imp, forall_eq]
    grind

end VaultSchema.Cache
