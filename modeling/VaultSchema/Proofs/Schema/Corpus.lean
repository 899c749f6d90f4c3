import VaultSchema.Proofs.Number.Order
import VaultSchema.Proofs.Schema.Suggestion
import VaultSchema.Proofs.Text.Order

/-! What a collection of notes suggests. The keys stand by falling count and among equals as they
are first met, and since shares fall with counts, the required keys come first, then the optional
ones, then those left out. -/

set_option autoImplicit false

namespace VaultSchema

/-- Sorting leaves what it need not change: of two elements in order both ways, the earlier one stays so. -/
theorem pairwise_mergeSort_stable {α : Type} {le : α → α → Bool} {r : α → α → Prop}
    (trans : ∀ a b c, le a b = true → le b c = true → le a c = true) (total : ∀ a b, (le a b || le b a) = true)
    {l : List α} (given : l.Pairwise r) : (l.mergeSort le).Pairwise fun a b => le b a = true → r a b := by
  induction l with
  | nil => simp
  | cons a l ih =>
    obtain ⟨first, given⟩ := List.pairwise_cons.1 given
    obtain ⟨front, back, whole, rest, above⟩ := List.mergeSort_cons trans total a l
    have ih := ih given
    rw [rest, List.pairwise_append] at ih
    obtain ⟨fronts, backs, across⟩ := ih
    rw [whole, List.pairwise_append, List.pairwise_cons]
    refine ⟨fronts, ⟨fun b mem _ => ?_, backs⟩, fun b mem c later back => ?_⟩
    · have inside : b ∈ l.mergeSort le := rest ▸ List.mem_append_right _ mem
      exact first b (List.mem_mergeSort.1 inside)
    · rcases List.mem_cons.1 later with rfl | later
      · have apart := above b mem
        simp [back] at apart
      · exact across b mem c later back

namespace Inference

/-- The first of the greatest counts of kinds that say something, or unknown where no kind says anything. -/
def Dominant (kinds : List (PrimitiveKind × Nat)) (k : PrimitiveKind) : Prop :=
  (∀ l ∈ kinds, l.1 = .unknown) ∧ k = .unknown ∨
    ∃ before n after, kinds.filter (·.1 != .unknown) = before ++ (k, n) :: after ∧
      (∀ l ∈ before, l.2 < n) ∧ ∀ l ∈ after, l.2 ≤ n

theorem mostFrequent_cases (kinds : List (PrimitiveKind × Nat)) :
    kinds = [] ∧ Frequency.mostFrequent kinds = none ∨
      ∃ before k after, kinds = before ++ k :: after ∧ Frequency.mostFrequent kinds = some k ∧
        (∀ l ∈ before, l.2 < k.2) ∧ ∀ l ∈ after, l.2 ≤ k.2 := by
  induction kinds with
  | nil => exact .inl ⟨rfl, rfl⟩
  | cons k rest ih =>
    refine .inr ?_
    rcases ih with ⟨rfl, none⟩ | ⟨before, l, after, rfl, some, below, above⟩
    · exact ⟨[], k, [], rfl, rfl, nofun, nofun⟩
    · rw [Frequency.mostFrequent, some]
      dsimp only
      split
      · next less => exact ⟨k :: before, l, after, rfl, rfl, List.forall_mem_cons.2 ⟨less, below⟩, above⟩
      · next notLess =>
        have le := Nat.not_lt.1 notLess
        refine ⟨[], k, before ++ l :: after, rfl, rfl, nofun, fun m mem => ?_⟩
        rcases List.mem_append.1 mem with mem | mem
        · exact (below m mem).le.trans le
        · rcases List.mem_cons.1 mem with rfl | mem
          · exact le
          · exact (above m mem).trans le

theorem dominant_dominantKind (f : Frequency) : Dominant f.kinds f.dominantKind := by
  unfold Frequency.dominantKind
  rcases mostFrequent_cases (f.kinds.filter (·.1 != .unknown)) with
    ⟨none, most⟩ | ⟨before, k, after, whole, most, order⟩
  · rw [most]
    exact .inl ⟨fun l mem => by simpa using List.filter_eq_nil_iff.1 none l mem, rfl⟩
  · rw [most]
    exact .inr ⟨before, k.2, after, whole, order⟩

structure Tallied (values : List Value) (limit : Nat) (f : Frequency) : Prop where
  count : f.count = values.length
  kinds : Text.FirstMet (values.map Value.suggestedKind) (f.kinds.map Prod.fst)
  counts : ∀ k ∈ f.kinds, k.2 = values.countP (·.suggestedKind == k.1)
  sum : (f.kinds.map Prod.snd).sum = f.count
  distinct : f.samples.Nodup
  shown : ∀ s ∈ f.samples, s ≠ "" ∧ ∃ v ∈ values, v.display = .ok s
  few : f.samples.length ≤ limit
  complete : f.samples.length < limit → ∀ v ∈ values, ∀ s, v.display = .ok s → s ≠ "" → s ∈ f.samples

theorem sum_count_distinct {α : Type} [DecidableEq α] (xs : List α) :
    ((Text.distinct xs).map fun a => xs.count a).sum = xs.length := by
  have perm : (Text.distinct xs).Perm xs.dedup := by
    rw [List.perm_ext_iff_of_nodup (Text.nodup_distinct xs) xs.nodup_dedup]
    simp
  rw [(perm.map _).sum_eq, List.sum_map_count_dedup_eq_length]

theorem tallied_ofOccurrences {entries : List (String × Value)} {os : List Occurrence}
    (told : List.Forall₂ Tells entries os) (total limit : Nat) (name : String) :
    Tallied (entries.map Prod.snd) limit (.ofOccurrences total limit name os) := by
  have kinds : os.map (·.kind) = (entries.map Prod.snd).map Value.suggestedKind := by
    rw [List.map_map, ← List.forall₂_eq_eq_eq, List.forall₂_map_left_iff, List.forall₂_map_right_iff]
    exact told.flip.imp fun _ _ tells => tells.2.1
  have counted (k : PrimitiveKind) : (os.filter (·.kind == k)).length = (os.map (·.kind)).count k := by
    rw [List.count_eq_countP, List.countP_map, List.countP_eq_length_filter]
    rfl
  constructor
  case count => exact (by simpa [Frequency.ofOccurrences] using told.length_eq.symm)
  case kinds =>
    rw [← kinds]
    simpa [Frequency.ofOccurrences, Function.comp_def] using Text.firstMet_distinct (os.map (·.kind))
  case counts =>
    intro k mem
    obtain ⟨kind, -, rfl⟩ := List.mem_map.1 mem
    rw [counted, kinds, List.count_eq_countP, List.countP_map]
    rfl
  case sum =>
    have sum := sum_count_distinct (os.map (·.kind))
    rw [List.length_map] at sum
    simpa [Frequency.ofOccurrences, Function.comp_def, counted] using sum
  case distinct => exact (Text.nodup_distinct _).sublist (List.take_sublist _ _)
  case shown =>
    intro s mem
    have mem := (Text.mem_distinct _ _).1 (List.mem_of_mem_take mem)
    obtain ⟨mem, nonempty⟩ := List.mem_filter.1 mem
    obtain ⟨o, inside, rfl⟩ := List.mem_map.1 mem
    obtain ⟨e, entry, tells⟩ := Outcome.partner_left told inside
    exact ⟨by simpa using nonempty, e.2, List.mem_map_of_mem entry, tells.2.2⟩
  case few => exact List.length_take_le _ _
  case complete =>
    intro spare v mem s displayed nonempty
    obtain ⟨e, inside, rfl⟩ := List.mem_map.1 mem
    obtain ⟨o, there, tells⟩ := Outcome.partner_right told inside
    obtain rfl := Except.ok.inj (tells.2.2.symm.trans displayed)
    change ((Text.distinct _).take limit).length < limit at spare
    change o.shown ∈ (Text.distinct _).take limit
    rw [List.length_take] at spare
    rw [List.take_of_length_le (by omega), Text.mem_distinct]
    exact List.mem_filter.2 ⟨List.mem_map_of_mem there, by simpa using nonempty⟩

section frequencies

variable {total limit : Nat} {os : List Occurrence} {f g : Frequency}

theorem mem_frequencies : f ∈ frequencies total limit os ↔
    ∃ n ∈ os.map (·.name), Frequency.ofOccurrences total limit n (os.filter (·.name == n)) = f := by
  rw [frequencies, List.mem_mergeSort, List.mem_map]
  simp only [Text.mem_distinct]

theorem names_frequencies (total limit : Nat) (os : List Occurrence) :
    ((frequencies total limit os).map (·.name)).Perm (Text.distinct (os.map (·.name))) := by
  refine ((List.mergeSort_perm _ _).map _).trans ?_
  simp [Frequency.ofOccurrences, Function.comp_def]

theorem frequencies_ordered (total limit : Nat) (os : List Occurrence) :
    (frequencies total limit os).Pairwise fun f g => g.count < f.count ∨
      g.count = f.count ∧ (os.map (·.name)).idxOf f.name < (os.map (·.name)).idxOf g.name := by
  have trans (f g h : Frequency) (first : decide (g.count ≤ f.count) = true)
      (second : decide (h.count ≤ g.count) = true) : decide (h.count ≤ f.count) = true := by
    rw [decide_eq_true_eq] at *
    exact second.trans first
  have total' (f g : Frequency) : (decide (g.count ≤ f.count) || decide (f.count ≤ g.count)) = true := by
    simpa using Nat.le_total g.count f.count
  have met : ((Text.distinct (os.map (·.name))).map fun n =>
      Frequency.ofOccurrences total limit n (os.filter (·.name == n))).Pairwise fun f g =>
        (os.map (·.name)).idxOf f.name < (os.map (·.name)).idxOf g.name :=
    List.pairwise_map.2 (Text.firstMet_distinct _).ordered
  refine ((List.pairwise_mergeSort trans total' _).and (pairwise_mergeSort_stable trans total' met)).imp ?_
  rintro f g ⟨falls, stable⟩
  rw [decide_eq_true_eq] at falls stable
  rcases falls.lt_or_eq with less | same
  · exact .inl less
  · exact .inr ⟨same, stable same.ge⟩

theorem lessOrEqual_share {least : Binary64} (some : 0 < total) (totals : f.total = total) (totals' : g.total = total)
    (falls : g.count ≤ f.count) (le : least.lessOrEqual g.share = true) : least.lessOrEqual f.share = true := by
  refine Binary64.lessOrEqual_of_not_less le (Binary64.ofRatio_ne_nan _ _ _) ?_
  have order := Binary64.not_less_ofRatio (a := g.count) (b := f.count) (Int.ofNat_le.2 falls) some
  rw [Frequency.share, Frequency.share, totals, totals']
  simpa [Int.not_lt.2 (Int.natCast_nonneg _)] using order

theorem standing_eq_required {required optional : Binary64} :
    standing required optional f = .required ↔ required.lessOrEqual f.share = true := by
  unfold standing
  split
  · simp [*]
  · split <;> simp [*]

theorem standing_eq_optional {required optional : Binary64} : standing required optional f = .optional ↔
    ¬required.lessOrEqual f.share = true ∧ optional.lessOrEqual f.share = true := by
  unfold standing
  split
  · simp [*]
  · split <;> simp [*]

theorem standing_eq_excluded {required optional : Binary64} : standing required optional f = .excluded ↔
    ¬required.lessOrEqual f.share = true ∧ ¬optional.lessOrEqual f.share = true := by
  unfold standing
  split
  · simp [*]
  · split <;> simp [*]

end frequencies

theorem parts_of_ordered {α : Type} {st : α → Standing} {l : List α} (ordered : l.Pairwise fun a b =>
    (st a ≠ .required → st b ≠ .required) ∧ (st a = .excluded → st b = .excluded)) :
    l.filter (st · == .required) ++ l.filter (st · == .optional) ++ l.filter (st · == .excluded) = l := by
  induction l with
  | nil => rfl
  | cons a l ih =>
    obtain ⟨first, ordered⟩ := List.pairwise_cons.1 ordered
    have ih := ih ordered
    -- An element in front settles which parts the others may stand in.
    cases standing : st a with
    | required => simp [standing, ih]
    | optional =>
      have none : l.filter (st · == .required) = [] := by
        refine List.filter_eq_nil_iff.2 fun b mem => ?_
        simpa using (first b mem).1 (by simp [standing])
      rw [none, List.nil_append] at ih
      simp [standing, none, ih]
    | excluded =>
      have all : ∀ b ∈ l, st b = .excluded := fun b mem => (first b mem).2 standing
      have none : l.filter (st · == .required) = [] :=
        List.filter_eq_nil_iff.2 fun b mem => by simp [all b mem]
      have none' : l.filter (st · == .optional) = [] :=
        List.filter_eq_nil_iff.2 fun b mem => by simp [all b mem]
      rw [none, none', List.nil_append, List.nil_append] at ih
      simp [standing, none, none', ih]

section notes

variable {notes : List (List (String × Value))} {key : String}

def valuesOf (notes : List (List (String × Value))) (key : String) : List Value :=
  (notes.flatten.filter (·.1 == key)).map Prod.snd

def having (notes : List (List (String × Value))) (key : String) : List (List (String × Value)) :=
  notes.filter fun note => (note.map Prod.fst).contains key

theorem length_valuesOf (nodup : ∀ note ∈ notes, (note.map Prod.fst).Nodup) (key : String) :
    (valuesOf notes key).length = (having notes key).length := by
  rw [valuesOf, List.length_map, having]
  induction notes with
  | nil => rfl
  | cons note notes ih =>
    obtain ⟨own, nodup⟩ := List.forall_mem_cons.1 nodup
    rw [List.flatten_cons, List.filter_append, List.length_append, ih nodup, List.filter_cons]
    by_cases mem : key ∈ note.map Prod.fst
    · obtain ⟨e, inside, rfl⟩ := List.mem_map.1 mem
      rw [filter_mark_eq_singleton own inside, if_pos (by simpa using mem), List.length_singleton, List.length_cons,
        Nat.add_comm]
    · have none : note.filter (·.1 == key) = [] := by
        refine List.filter_eq_nil_iff.2 fun e inside same => mem ?_
        exact beq_iff_eq.1 same ▸ List.mem_map_of_mem inside
      rw [none, if_neg (by simpa using mem), List.length_nil, Nat.zero_add]

theorem own_filter (other : key ≠ "position") (entries : List (String × Value)) :
    (own entries).filter (·.1 == key) = entries.filter (·.1 == key) := by
  rw [own, List.filter_filter]
  refine List.filter_congr fun e _ => ?_
  by_cases same : e.1 = key <;> simp [same, other]

theorem told_filter {entries : List (String × Value)} {os : List Occurrence} (told : List.Forall₂ Tells entries os)
    (key : String) : List.Forall₂ Tells (entries.filter (·.1 == key)) (os.filter (·.name == key)) := by
  induction told with
  | nil => exact .nil
  | @cons e o entries os tells told ih =>
    rw [List.filter_cons, List.filter_cons, tells.1]
    split
    · exact .cons tells ih
    · exact ih

/-- Frequencies of all keys of notes, each once, by falling count and among equals as first met. -/
structure Counted (notes : List (List (String × Value))) (limit : Nat) (found : List Frequency) : Prop where
  names : ∀ key, key ∈ found.map (·.name) ↔ key ≠ "position" ∧ ∃ note ∈ notes, key ∈ note.map Prod.fst
  nodup : (found.map (·.name)).Nodup
  ordered : found.Pairwise fun f g => g.count < f.count ∨ g.count = f.count ∧
    ((own notes.flatten).map Prod.fst).idxOf f.name < ((own notes.flatten).map Prod.fst).idxOf g.name
  counts : ∀ f ∈ found, f.count = (having notes f.name).length ∧ f.total = notes.length
  tallied : ∀ f ∈ found, Tallied (valuesOf notes f.name) limit f

/-- Keys parted by their shares: fields that are required, fields that are not, and keys left out. -/
structure Parted (limits : Limits) (s : Suggestion) : Prop where
  parts : s.required ++ s.optional ++ s.excluded = s.frequencies.map (·.name)
  required : ∀ f ∈ s.frequencies, f.name ∈ s.required ↔ limits.required.lessOrEqual f.share = true
  optional : ∀ f ∈ s.frequencies, f.name ∈ s.optional ↔
    ¬limits.required.lessOrEqual f.share = true ∧ limits.optional.lessOrEqual f.share = true
  fields : s.fields.map (fun d => (d.name, d.required)) = s.required.map (·, true) ++ s.optional.map (·, false)
  types : ∀ d ∈ s.fields, ∃ f ∈ s.frequencies, ∃ k, Dominant f.kinds k ∧
    d = { name := f.name, type := .primitive k, required := d.required }

/-- What is suggested by notes accounts for all their keys. -/
structure Accounts (notes : List (List (String × Value))) (limits : Limits) (s : Suggestion) : Prop where
  analyzed : s.analyzed = notes.length
  counted : Counted notes limits.samples s.frequencies
  parted : Parted limits s

def declared (required : Bool) (f : Frequency) : FieldSpec :=
  { name := f.name, type := .primitive f.dominantKind, required }

theorem fields_of_parts {limits : Limits} {found : List Frequency}
    (parts : found.filter (standing limits.required limits.optional · == .required) ++
      found.filter (standing limits.required limits.optional · == .optional) ++
      found.filter (standing limits.required limits.optional · == .excluded) = found) :
    found.filterMap (suggestedField? limits) =
      (found.filter (standing limits.required limits.optional · == .required)).map (declared true) ++
        (found.filter (standing limits.required limits.optional · == .optional)).map (declared false) := by
  have part {st : Standing} {g : Frequency → Option FieldSpec}
      (same : ∀ f, standing limits.required limits.optional f = st → suggestedField? limits f = g f) :
      (found.filter (standing limits.required limits.optional · == st)).filterMap (suggestedField? limits) =
        (found.filter (standing limits.required limits.optional · == st)).filterMap g :=
    List.filterMap_congr fun f mem => same f (beq_iff_eq.1 (List.mem_filter.1 mem).2)
  conv_lhs => rw [← parts]
  rw [List.filterMap_append, List.filterMap_append,
    part (g := fun f => some (declared true f)) fun f st => by rw [suggestedField?, st]; rfl,
    part (g := fun f => some (declared false f)) fun f st => by rw [suggestedField?, st]; rfl,
    part (g := fun _ => none) fun f st => by rw [suggestedField?, st]]
  simp

theorem parts_of_frequencies {limits : Limits} {total limit : Nat} {os : List Occurrence} (some : os ≠ [] → 0 < total) :
    let st := standing limits.required limits.optional
    let found := frequencies total limit os
    found.filter (st · == .required) ++ found.filter (st · == .optional) ++ found.filter (st · == .excluded) = found := by
  intro st found
  have totals : ∀ f ∈ found, f.total = total ∧ 0 < total := by
    intro f mem
    obtain ⟨n, inside, rfl⟩ := mem_frequencies.1 mem
    exact ⟨rfl, some (by rintro rfl; cases inside)⟩
  refine parts_of_ordered ((frequencies_ordered total limit os).imp_of_mem fun {f g} first second order => ?_)
  obtain ⟨same, pos⟩ := totals f first
  have falls : g.count ≤ f.count := by
    rcases order with less | ⟨same, -⟩
    · exact less.le
    · exact same.le
  have up {least : Binary64} (le : least.lessOrEqual g.share = true) : least.lessOrEqual f.share = true :=
    lessOrEqual_share pos same (totals g second).1 falls le
  constructor
  · intro short required
    exact short (standing_eq_required.2 (up (standing_eq_required.1 required)))
  · intro excluded
    obtain ⟨short, shorter⟩ := standing_eq_excluded.1 excluded
    exact standing_eq_excluded.2 ⟨mt up short, mt up shorter⟩

theorem mem_part {found : List Frequency} (nodup : (found.map (·.name)).Nodup) {f : Frequency} (mem : f ∈ found)
    (p : Frequency → Bool) : f.name ∈ (found.filter p).map (·.name) ↔ p f = true := by
  rw [List.mem_map]
  constructor
  · rintro ⟨g, inside, same⟩
    obtain ⟨there, holds⟩ := List.mem_filter.1 inside
    rwa [← List.inj_on_of_nodup_map nodup there mem same]
  · exact fun holds => ⟨f, List.mem_filter.2 ⟨mem, holds⟩, rfl⟩

def suggested (limits : Limits) (total : Nat) (found : List Frequency) : Suggestion where
  analyzed := total
  frequencies := found
  fields := found.filterMap (suggestedField? limits)
  required := (found.filter (standing limits.required limits.optional · == .required)).map (·.name)
  optional := (found.filter (standing limits.required limits.optional · == .optional)).map (·.name)
  excluded := (found.filter (standing limits.required limits.optional · == .excluded)).map (·.name)

theorem parted_suggested {limits : Limits} {total : Nat} {found : List Frequency}
    (nodup : (found.map (·.name)).Nodup)
    (parts : found.filter (standing limits.required limits.optional · == .required) ++
      found.filter (standing limits.required limits.optional · == .optional) ++
      found.filter (standing limits.required limits.optional · == .excluded) = found) :
    Parted limits (suggested limits total found) where
  parts := by
    have names := congrArg (List.map (·.name)) parts
    rwa [List.map_append, List.map_append] at names
  required _ mem := (mem_part nodup mem _).trans (beq_iff_eq.trans standing_eq_required)
  optional _ mem := (mem_part nodup mem _).trans (beq_iff_eq.trans standing_eq_optional)
  fields := by
    change (found.filterMap (suggestedField? limits)).map _ = _
    rw [fields_of_parts parts, List.map_append, List.map_map, List.map_map]
    simp [suggested, declared, Function.comp_def]
  types d mem := by
    change d ∈ found.filterMap (suggestedField? limits) at mem
    rw [fields_of_parts parts] at mem
    rcases List.mem_append.1 mem with mem | mem
    · obtain ⟨f, inside, rfl⟩ := List.mem_map.1 mem
      exact ⟨f, List.mem_of_mem_filter inside, _, dominant_dominantKind f, rfl⟩
    · obtain ⟨f, inside, rfl⟩ := List.mem_map.1 mem
      exact ⟨f, List.mem_of_mem_filter inside, _, dominant_dominantKind f, rfl⟩

theorem counted_frequencies {os : List Occurrence} (distinct : ∀ note ∈ notes, (note.map Prod.fst).Nodup)
    (told : List.Forall₂ Tells (own notes.flatten) os) (limit : Nat) :
    Counted notes limit (frequencies notes.length limit os) := by
  have met := names_of_told told
  have key : ∀ k, k ∈ os.map (·.name) ↔ k ≠ "position" ∧ ∃ note ∈ notes, k ∈ note.map Prod.fst := by
    intro k
    rw [met]
    simp only [own, List.mem_map, List.mem_filter, List.mem_flatten]
    constructor
    · rintro ⟨e, ⟨⟨note, there, inside⟩, other⟩, rfl⟩
      exact ⟨by simpa using other, note, there, e, inside, rfl⟩
    · rintro ⟨other, note, there, e, inside, rfl⟩
      exact ⟨e, ⟨⟨note, there, inside⟩, by simpa using other⟩, rfl⟩
  have tallied : ∀ f ∈ frequencies notes.length limit os, f.total = notes.length ∧
      Tallied (valuesOf notes f.name) limit f := by
    intro f mem
    obtain ⟨n, inside, rfl⟩ := mem_frequencies.1 mem
    have of := told_filter told n
    rw [own_filter ((key n).1 inside).1] at of
    exact ⟨rfl, tallied_ofOccurrences of _ _ _⟩
  constructor
  case names => exact fun k => by rw [(names_frequencies _ _ _).mem_iff, Text.mem_distinct, key]
  case nodup => exact (names_frequencies _ _ _).nodup_iff.2 (Text.nodup_distinct _)
  case ordered =>
    rw [← met]
    exact frequencies_ordered _ _ _
  case counts =>
    intro f mem
    obtain ⟨total, counts⟩ := tallied f mem
    exact ⟨counts.count.trans (length_valuesOf distinct f.name), total⟩
  case tallied => exact fun f mem => (tallied f mem).2

/-- Notes with distinct keys and values that can be shown suggest a schema that accounts for every key once. -/
theorem fromNotes_accounts {limits : Limits} (distinct : ∀ note ∈ notes, (note.map Prod.fst).Nodup)
    (displays : ∀ note ∈ notes, ∀ e ∈ own note, ∃ shown, e.2.display = .ok shown) :
    ∃ s, fromNotes (notes.map Entries.ofTexts) limits = .ok s ∧ Accounts notes limits s := by
  have flat : ∀ e ∈ own notes.flatten, ∃ shown, e.2.display = .ok shown := by
    intro e mem
    obtain ⟨inside, other⟩ := List.mem_filter.1 mem
    obtain ⟨note, there, inside⟩ := List.mem_flatten.1 inside
    exact displays note there e (List.mem_filter.2 ⟨inside, other⟩)
  obtain ⟨os, told⟩ := exists_told flat
  have some (found : os ≠ []) : 0 < notes.length := by
    rw [List.length_pos_iff]
    rintro rfl
    cases told
    exact found rfl
  have counted := counted_frequencies distinct told limits.samples
  refine ⟨suggested limits notes.length (frequencies notes.length limits.samples os), ?_, rfl, counted, ?_⟩
  · unfold fromNotes
    rw [occurrences_notes.2 told, List.length_map]
    rfl
  · exact parted_suggested counted.nodup (parts_of_frequencies some)

end notes

/-- Two books of which both have a title and one has a year, and a note without frontmatter. -/
def shelf : List (List (String × Value)) :=
  [[("title", .text "Dune"), ("position", .null)], [("title", .text "Emma"), ("year", .int 1815)], []]

theorem fromNotes_accounts_shelf :
    ∃ s, fromNotes (shelf.map Entries.ofTexts) { required := .ofRatio false 1 2 } = .ok s ∧ s.analyzed = 3 ∧
      "title" ∈ s.required ∧ "year" ∈ s.optional ∧ "position" ∉ s.required ++ s.optional ++ s.excluded := by
  have distinct : ∀ note ∈ shelf, (note.map Prod.fst).Nodup := by decide +kernel
  have displays : ∀ note ∈ shelf, ∀ e ∈ own note, ∃ shown, e.2.display = .ok shown := by
    have shows : ∀ note ∈ shelf, ∀ e ∈ own note, e.2.display.toBool = true := by decide +kernel
    intro note there e mem
    have ok := shows note there e mem
    cases displayed : e.2.display with
    | ok shown => exact ⟨shown, rfl⟩
    | error => simp [displayed, Except.toBool] at ok
  obtain ⟨s, made, accounts⟩ := @fromNotes_accounts shelf { required := .ofRatio false 1 2 } distinct displays
  obtain ⟨analyzed, counted, parted⟩ := accounts
  have share (key : String) (other : key ≠ "position") (there : ∃ note ∈ shelf, key ∈ note.map Prod.fst) :
      ∃ f ∈ s.frequencies, f.name = key ∧ f.share = .ofRatio false (having shelf key).length 3 := by
    obtain ⟨f, mem, rfl⟩ := List.mem_map.1 ((counted.names key).2 ⟨other, there⟩)
    obtain ⟨count, total⟩ := counted.counts f mem
    exact ⟨f, mem, rfl, by rw [Frequency.share, count, total]; rfl⟩
  obtain ⟨title, mem, name, titles⟩ := share "title" (by decide) (by decide +kernel)
  obtain ⟨year, mem', name', years⟩ := share "year" (by decide) (by decide +kernel)
  refine ⟨s, made, analyzed, ?_, ?_, ?_⟩
  · rw [← name, parted.required title mem, titles]
    decide +kernel
  · rw [← name', parted.optional year mem', years]
    decide +kernel
  · rw [parted.parts, counted.names]
    exact fun position => position.1 rfl

end Inference
end VaultSchema
