import VaultSchema.Query.Reading

set_option autoImplicit false

namespace VaultSchema.Query

theorem readConditions_step (ts : List Token) :
    readConditions ts = (do
      let own ← conditionOfWords (ts.takeWhile Token.isWord)
      match ts.dropWhile Token.isWord with
      | [] => return (own, [])
      | t :: rest =>
        if t.kind = .and then
          let r ← readConditions rest
          return (own ++ r.1, r.2)
        else return (own, t :: rest)) := by
  rw [readConditions]
  cases conditionOfWords (ts.takeWhile Token.isWord) with
  | error e => rfl
  | ok own =>
    simp only [bind, Except.bind, pure, Except.pure]
    split
    · rename_i behind
      rw [behind]
    · rename_i behind
      rw [behind]
      dsimp only
      split
      · split <;> rename_i inner <;> rw [inner]
      · rfl

theorem readExcluded_nil : readExcluded [] = .ok ([], []) := by rw [readExcluded]

theorem readExcluded_cons (t : Token) (rest : List Token) :
    readExcluded (t :: rest) =
      if t.kind = .not then (do
        let own ← readConditions rest
        let others ← readExcluded own.2
        return (own.1 ++ others.1, others.2))
      else .ok ([], t :: rest) := by
  rw [readExcluded]
  split
  · split
    · rename_i own
      rw [own]
      rfl
    · rename_i own
      rw [own]
      simp only [bind, Except.bind, pure, Except.pure]
      split <;> rename_i others <;> rw [others]
  · rfl

theorem readSegment_step (ts : List Token) :
    readSegment ts = (do
      let required ← readConditions ts
      let excluded ← readExcluded required.2
      return (⟨required.1, excluded.1⟩, excluded.2)) := by
  unfold readSegment
  cases readConditions ts with
  | error e => rfl
  | ok required =>
    simp only [bind, Except.bind, pure, Except.pure]
    split <;> rename_i excluded <;> rw [excluded]

theorem readSegments_nil : readSegments [] = .ok [] := by rw [readSegments]

theorem readSegments_cons (t : Token) (more : List Token) :
    readSegments (t :: more) =
      if t.kind = .finish then .ok []
      else (do
        let first ← readSegment (t :: more)
        let others ← readSegments first.2.tail
        return if first.1.required.isEmpty then others else first.1 :: others) := by
  rw [readSegments]
  split
  · rfl
  · split
    · rename_i segment
      rw [segment]
      rfl
    · rename_i segment
      rw [segment]
      simp only [bind, Except.bind, pure, Except.pure, List.tail_nil, readSegments_nil]
    · rename_i segment
      rw [segment]
      simp only [bind, Except.bind, pure, Except.pure, List.tail_cons]
      split <;> rename_i others <;> rw [others]

end VaultSchema.Query
