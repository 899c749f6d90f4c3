import VaultSchema.Note.Document
import VaultSchema.Proofs.Outcome
import VaultSchema.Proofs.Text.Order
import VaultSchema.Proofs.Text.Trim
import VaultSchema.Query.Basic

/-! Tags as notes hold them. A tag is bare when the matching of tags takes nothing off it; tags out
of a body are, and so are those that cleaning leaves without a blank or a number sign at their ends.
-/

set_option autoImplicit false

namespace VaultSchema

theorem toList_bareTag (t : String) :
    (bareTag t).toList = (Text.trimList Text.isBlank t.toList).dropWhile (· == '#') := by
  simp [bareTag]

theorem bareTag_eq_self {t : String} (free : ∀ c ∈ t.toList, Text.isBlank c = false ∧ c ≠ '#') : bareTag t = t := by
  have trimmed : Text.Trimmed Text.isBlank t.toList :=
    ⟨fun c mem => (free c (List.mem_of_mem_head? mem)).1, fun c mem => (free c (List.mem_of_getLast? mem)).1⟩
  rw [← String.toList_inj, toList_bareTag, Text.trimList_eq_self trimmed]
  exact Text.dropWhile_eq_self fun c mem => by simpa using (free c (List.mem_of_mem_head? mem)).2

namespace Tags

variable {t : String}

/-- What is stored for a text is not changed where tags are matched. -/
def Settled (text : String) : Prop := bareTag (clean text) = clean text

instance (text : String) : Decidable (Settled text) := by unfold Settled; infer_instance

theorem mem_of_mem_clean {text : String} {c : Char} (mem : c ∈ (clean text).toList) : c ∈ text.toList := by
  simp only [clean, Text.toList_trimBy, Text.toList_trimStartBy, Text.toList_trim] at mem
  have := (Text.trimList_isInfix _ _).subset mem
  have := (List.dropWhile_sublist _).mem this
  exact (Text.trimList_isInfix _ _).subset this

theorem isTagChar_of_isBlank {c : Char} (blank : Text.isBlank c = true) : isTagChar c = false := by
  have all : ∀ n ∈ Text.blankCodes, isTagChar (Char.ofNat n) = false := by decide +kernel
  have code := all c.toNat (by simpa [Text.isBlank] using blank)
  rwa [Char.ofNat_toNat] at code

theorem run_chars {skip : Nat} {before : Option Char} {cs run : List Char} (mem : run ∈ runsFrom skip before cs) :
    ∀ c ∈ run, isTagChar c = true := by
  fun_induction runsFrom skip before cs with
  | case1 => simp at mem
  | case2 _ _ _ _ ih => exact ih mem
  | case3 _ _ _ own _ ih =>
    rcases List.mem_cons.1 mem with rfl | mem
    · exact fun c mem => List.all_eq_true.1 List.all_takeWhile c mem
    · exact ih mem
  | case4 _ _ _ _ _ ih => exact ih mem

theorem mem_gather {texts : List String} : t ∈ gather texts ↔ t ∈ texts ∧ t ≠ "" := by
  simp [gather, Text.mem_distinct]

theorem inBody_chars {body : String} (mem : t ∈ inBody body) : ∀ c ∈ t.toList, isTagChar c = true := by
  obtain ⟨mem, _⟩ := mem_gather.1 mem
  obtain ⟨run, found, rfl⟩ := List.mem_map.1 (List.mem_of_mem_filter mem)
  intro c inside
  exact run_chars found c (by simpa using mem_of_mem_clean inside)

theorem settled_of_inBody {body : String} (mem : t ∈ inBody body) : Settled t := by
  refine bareTag_eq_self fun c inside => ?_
  have isChar := inBody_chars mem c (mem_of_mem_clean inside)
  constructor
  · by_contra blank
    simp [isTagChar_of_isBlank (by simpa using blank)] at isChar
  · rintro rfl
    revert isChar
    decide +kernel

end Tags

namespace Document

variable {d : Document} {texts : List String}

/-- A note made with some texts as tags, or out of a body and a frontmatter that declares them. -/
inductive TaggedBy (texts : List String) : Document → Prop
  | made (id : String) (frontmatter : Option Entries) (created modified : Option Moment) :
    TaggedBy texts (make id frontmatter texts created modified)
  | read {id body : String} {frontmatter : Option Entries} {created modified : Option Moment} {d : Document}
    (declared : Tags.declared (frontmatter.getD []) = .ok texts)
    (built : ofContent id frontmatter body created modified = .ok d) : TaggedBy texts d

theorem bare_of_mem_make {id : String} {frontmatter : Option Entries} {created modified : Option Moment}
    (settled : ∀ u ∈ texts, Tags.Settled u) :
    ∀ t ∈ (make id frontmatter texts created modified).tags, bareTag t = t := by
  intro t mem
  obtain ⟨u, inside, rfl⟩ := List.mem_map.1 (List.mem_of_mem_filter mem)
  exact settled u inside

theorem TaggedBy.bare (tagged : TaggedBy texts d) (settled : ∀ u ∈ texts, Tags.Settled u) :
    ∀ t ∈ d.tags, bareTag t = t := by
  cases tagged with
  | made => exact bare_of_mem_make settled
  | @read _ body frontmatter _ _ _ declared built =>
    have tags : Tags.ofNote (frontmatter.getD []) body =
        .ok (texts ++ (Tags.inBody body).filter fun tag => !texts.contains tag) := by
      rw [Tags.ofNote, declared]
      rfl
    rw [ofContent, tags] at built
    cases built
    refine bare_of_mem_make fun u mem => ?_
    rcases List.mem_append.1 mem with own | inside
    · exact settled u own
    · exact Tags.settled_of_inBody (List.mem_of_mem_filter inside)

end Document
end VaultSchema
