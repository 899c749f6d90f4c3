import VaultSchema.Query.Basic
import VaultSchema.Query.Token

/-! Reading of queries. Segments are separated by `or`; in a segment what comes behind `not` is
excluded, and conditions are joined by `and`. Neighbouring words are one condition, so paths may
hold blanks. Segments that require nothing are dropped. -/

set_option autoImplicit false

namespace VaultSchema.Query

def Token.isWord (t : Token) : Bool := t.kind == .word

def conditionOfText (text : String) (column : Nat) : Except QueryFault Condition :=
  let text := (Text.trim text).toList
  if text == ['*'] then .ok .all
  else if text.head? == some '#' then
    let name := Text.trim (String.ofList (text.drop 1))
    if name.isEmpty then .error (.missingTagName column) else .ok (.tag name)
  else if ['/', '*'].isSuffixOf text then
    .ok (.below (Folder.normalize (String.ofList (text.take (text.length - 2)))))
  else .ok (.folder (Folder.normalize (String.ofList text)))

def conditionOfWords : List Token → Except QueryFault (List Condition)
  | [] => .ok []
  | first :: rest => do
    let c ← conditionOfText (" ".intercalate ((first :: rest).map (·.value))) first.column
    return [c]

def readConditions (ts : List Token) : Except QueryFault (List Condition × List Token) :=
  match conditionOfWords (ts.takeWhile Token.isWord) with
  | .error e => .error e
  | .ok own =>
    match _behind : ts.dropWhile Token.isWord with
    | [] => .ok (own, [])
    | t :: rest =>
      if t.kind = .and then
        match readConditions rest with
        | .error e => .error e
        | .ok (others, after) => .ok (own ++ others, after)
      else .ok (own, t :: rest)
termination_by ts.length
decreasing_by
  have front := (List.dropWhile_sublist Token.isWord (l := ts)).length_le
  rw [_behind] at front
  simp only [List.length_cons] at front
  omega

theorem readConditions_length {ts after : List Token} {cs : List Condition}
    (h : readConditions ts = .ok (cs, after)) : after.length ≤ ts.length := by
  induction n : ts.length using Nat.strongRecOn generalizing ts cs after with
  | ind k ih =>
    have front := (List.dropWhile_sublist Token.isWord (l := ts)).length_le
    rw [readConditions] at h
    split at h
    · simp at h
    · split at h
      · simp only [Except.ok.injEq, Prod.mk.injEq] at h
        simp [← h.2]
      · rename_i behind
        rw [behind] at front
        simp only [List.length_cons] at front
        split at h
        · split at h
          · simp at h
          · rename_i inner
            simp only [Except.ok.injEq, Prod.mk.injEq] at h
            have := ih _ (by omega) inner rfl
            rw [← h.2]
            omega
        · simp only [Except.ok.injEq, Prod.mk.injEq] at h
          rw [← h.2]
          simp only [List.length_cons]
          omega

def readExcluded (ts : List Token) : Except QueryFault (List Condition × List Token) :=
  match ts with
  | [] => .ok ([], [])
  | t :: rest =>
    if t.kind = .not then
      match _own : readConditions rest with
      | .error e => .error e
      | .ok (own, after) =>
        match readExcluded after with
        | .error e => .error e
        | .ok (others, after) => .ok (own ++ others, after)
    else .ok ([], t :: rest)
termination_by ts.length
decreasing_by
  have := readConditions_length _own
  simp only [List.length_cons]
  omega

theorem readExcluded_length {ts after : List Token} {cs : List Condition}
    (h : readExcluded ts = .ok (cs, after)) : after.length ≤ ts.length := by
  induction n : ts.length using Nat.strongRecOn generalizing ts cs after with
  | ind k ih =>
    rw [readExcluded.eq_def] at h
    split at h
    · simp only [Except.ok.injEq, Prod.mk.injEq] at h
      simp [← h.2]
    · split at h
      · split at h
        · simp at h
        · rename_i own
          have bound := readConditions_length own
          simp only [List.length_cons] at n
          split at h
          · simp at h
          · rename_i inner
            simp only [Except.ok.injEq, Prod.mk.injEq] at h
            have := ih _ (by omega) inner rfl
            rw [← h.2]
            omega
      · simp only [Except.ok.injEq, Prod.mk.injEq] at h
        rw [← h.2]
        omega

def readSegment (ts : List Token) : Except QueryFault (Segment × List Token) :=
  match readConditions ts with
  | .error e => .error e
  | .ok (required, behind) =>
    match readExcluded behind with
    | .error e => .error e
    | .ok (excluded, after) => .ok (⟨required, excluded⟩, after)

theorem readSegment_length {ts after : List Token} {s : Segment}
    (h : readSegment ts = .ok (s, after)) : after.length ≤ ts.length := by
  unfold readSegment at h
  split at h
  · simp at h
  · rename_i first
    split at h
    · simp at h
    · rename_i second
      simp only [Except.ok.injEq, Prod.mk.injEq] at h
      have := readConditions_length first
      have := readExcluded_length second
      rw [← h.2]
      omega

/-- The segments that require something. The token between two segments is passed over. -/
def readSegments (ts : List Token) : Except QueryFault (List Segment) :=
  match ts with
  | [] => .ok []
  | t :: more =>
    if t.kind = .finish then .ok []
    else
      match _segment : readSegment (t :: more) with
      | .error e => .error e
      | .ok (s, []) => .ok (if s.required.isEmpty then [] else [s])
      | .ok (s, _ :: rest) =>
        match readSegments rest with
        | .error e => .error e
        | .ok others => .ok (if s.required.isEmpty then others else s :: others)
termination_by ts.length
decreasing_by
  have := readSegment_length _segment
  simp only [List.length_cons] at this ⊢
  omega

def read (source : String) : Except QueryFault Query := do
  return ⟨source, ← readSegments (← tokenize source)⟩

end VaultSchema.Query
