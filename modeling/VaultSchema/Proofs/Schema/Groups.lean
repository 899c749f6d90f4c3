import VaultSchema.Proofs.Text.Order
import VaultSchema.Schema.Registry

set_option autoImplicit false

namespace VaultSchema

namespace FieldGroup

variable {fields others : List FieldSpec} {g h : FieldGroup}

theorem mem_ofFields : g ∈ ofFields fields ↔
    (∃ s ∈ fields, s.name = g.name) ∧ g.variants = fields.filter (·.name == g.name) := by
  obtain ⟨name, variants⟩ := g
  simp only [ofFields, List.mem_map, Text.mem_distinct, mk.injEq]
  constructor
  · rintro ⟨_, ⟨s, mem, rfl⟩, rfl, rfl⟩
    exact ⟨⟨s, mem, rfl⟩, rfl⟩
  · rintro ⟨⟨s, mem, rfl⟩, rfl⟩
    exact ⟨_, ⟨s, mem, rfl⟩, rfl, rfl⟩

theorem exists_variant (group : g ∈ ofFields fields) : ∃ s, s ∈ g.variants := by
  obtain ⟨⟨s, mem, name⟩, variants⟩ := mem_ofFields.1 group
  exact ⟨s, variants ▸ List.mem_filter.2 ⟨mem, by simp [name]⟩⟩

theorem eq_of_name (group : g ∈ ofFields fields) (other : h ∈ ofFields fields) (same : g.name = h.name) :
    g = h := by
  have variants : g.variants = h.variants := by
    rw [(mem_ofFields.1 group).2, (mem_ofFields.1 other).2, same]
  cases g
  cases h
  cases same
  cases variants
  rfl

theorem ofFields_without (fields : List FieldSpec) (name : String) :
    ofFields (fields.filter fun f => f.name ≠ name) = (ofFields fields).filter fun g => g.name ≠ name := by
  have names : (fields.filter fun f => f.name ≠ name).map (·.name) =
      (fields.map (·.name)).filter fun n => n ≠ name := by
    rw [List.filter_map]
    rfl
  unfold ofFields
  rw [names, ← Text.filter_distinct, List.filter_map]
  refine List.map_congr_left fun n mem => ?_
  have other : n ≠ name := by simpa using (List.mem_filter.1 mem).2
  rw [List.filter_filter]
  congr 1
  refine List.filter_congr fun f _ => ?_
  by_cases own : f.name = n
  · simp [own, other]
  · simp [own]

end FieldGroup

def NamedType.without (t : NamedType) (name : String) : NamedType :=
  { t with fields := t.fields.filter fun f => f.name ≠ name }

theorem NamedType.groups_without (t : NamedType) (name : String) :
    (t.without name).groups = t.groups.filter fun g => g.name ≠ name := FieldGroup.ofFields_without t.fields name

end VaultSchema
