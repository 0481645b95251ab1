import SigilScript.Boundary
import SigilScript.Proofs.Nesting

/-! # Statements that go on through groups

Inside a group of a statement whose head is settled no lexeme can end the statement but one that
leaves the group. So a properly nested list inside a group is taken whole and leaves the boundary
as it found it.
-/

namespace SigilScript

/-- Whether no further lexeme decides what kind of statement this is. -/
def Head.isSettled : Head → Bool
  | .simple | .blockBearing _ => true
  | _ => false

/-- What an opener adds to the depth. -/
theorem Category.delta_opener {category : Category} (opens : category.isOpener = true) :
    category.delta = 1 := by
  simp only [delta, opens, ↓reduceIte]

theorem Category.delta_closer {category : Category} (closes : category.isCloser = true) :
    category.delta = -1 := by
  simp [delta, closes, isOpener_eq_false_of_isCloser closes]

theorem Category.delta_plain {category : Category} (opens : category.isOpener = false)
    (closes : category.isCloser = false) : category.delta = 0 := by
  simp [delta, opens, closes]

namespace Boundary

/-- The boundary stands in a group of a statement whose head is settled. -/
structure Inside (boundary : Boundary) : Prop where
  settled : boundary.head.isSettled = true
  resumed : boundary.awaiting = false
  deep : 0 < boundary.depth

/-- The same boundary one group further in. -/
def deeper (boundary : Boundary) : Boundary := { boundary with depth := boundary.depth + 1 }

variable {boundary : Boundary} {lexeme : Lexeme}

theorem offer_settled (settled : boundary.head.isSettled = true)
    (resumed : boundary.awaiting = false) : boundary.offer lexeme = boundary.settle lexeme := by
  rcases boundary with ⟨head, depth, awaiting, chainClosed⟩
  cases head <;> first | contradiction | simp_all [offer, accept]

theorem settle_deep (deep : 0 < boundary.depth + lexeme.category.delta) :
    boundary.settle lexeme =
      (.take, { boundary with depth := boundary.depth + lexeme.category.delta }) := by
  have notLeft : ¬ boundary.depth + lexeme.category.delta < 0 := by omega
  simp only [settle, notLeft, deep, ↓reduceIte]

namespace Inside

/-- A lexeme that leaves the boundary inside is taken and counted. -/
theorem offer (inside : boundary.Inside) (deep : 0 < boundary.depth + lexeme.category.delta) :
    boundary.offer lexeme =
      (.take, { boundary with depth := boundary.depth + lexeme.category.delta }) := by
  rw [offer_settled inside.settled inside.resumed, settle_deep deep]

theorem offer_plain (inside : boundary.Inside) (opens : lexeme.category.isOpener = false)
    (closes : lexeme.category.isCloser = false) : boundary.offer lexeme = (.take, boundary) := by
  have same : boundary.depth + lexeme.category.delta = boundary.depth := by
    rw [Category.delta_plain opens closes, Int.add_zero]
  rw [inside.offer (by rw [same]; exact inside.deep), same]

theorem deeper (inside : boundary.Inside) : boundary.deeper.Inside :=
  ⟨inside.settled, inside.resumed, Int.lt_add_one_of_le (Int.le_of_lt inside.deep)⟩

theorem offer_opener (inside : boundary.Inside) (opens : lexeme.category.isOpener = true) :
    boundary.offer lexeme = (.take, boundary.deeper) := by
  have deep := inside.deep
  have counts := Category.delta_opener opens
  rw [inside.offer (by omega), counts]
  rfl

theorem offer_closer (inside : boundary.Inside) (closes : lexeme.category.isCloser = true) :
    boundary.deeper.offer lexeme = (.take, boundary) := by
  have deep := inside.deep
  have same : boundary.deeper.depth + lexeme.category.delta = boundary.depth := by
    rw [Category.delta_closer closes]
    exact Int.add_neg_cancel_right _ _
  rw [inside.deeper.offer (by omega), same]
  rfl

end Inside

/-! ## Runs -/

/-- A boundary takes lexemes one by one and then stands elsewhere. -/
inductive Takes : Boundary → List Lexeme → Boundary → Prop where
  | nil (boundary : Boundary) : Takes boundary [] boundary
  | cons {boundary further final : Boundary} {lexeme : Lexeme} {rest : List Lexeme} :
    boundary.offer lexeme = (.take, further) → Takes further rest final →
      Takes boundary (lexeme :: rest) final

theorem Takes.append {further final : Boundary} {first second : List Lexeme}
    (before : boundary.Takes first further) (behind : further.Takes second final) :
    boundary.Takes (first ++ second) final := by
  induction before with
  | nil => exact behind
  | cons offered _ ih => exact .cons offered (ih behind)

/-- Inside a group a properly nested list is taken whole. -/
theorem Inside.takes {lexemes : List Lexeme} (inside : boundary.Inside) (nested : Nested lexemes) :
    boundary.Takes lexemes boundary := by
  induction nested generalizing boundary with
  | nil => exact .nil boundary
  | plain opens closes _ ih => exact .cons (inside.offer_plain opens closes) (ih inside)
  | group partner _ _ ihInner ihRest =>
    have entered := inside.offer_opener (Category.isOpener_of_closer? partner)
    have left := inside.offer_closer (Category.isCloser_of_closer? partner)
    exact .cons entered ((ihInner inside.deeper).append (.cons left (ihRest inside)))

/-! ## Depth zero -/

/-- An opener settles the head of the statement that it is taken into. -/
theorem accept_opener (opens : lexeme.category.isOpener = true) (boundary : Boundary) :
    ∃ head : Head, head.isSettled = true ∧
      boundary.accept lexeme = settle { boundary with head } lexeme := by
  have noColon : lexeme.category ≠ .colon := by
    intro same
    rw [same] at opens
    contradiction
  rcases boundary with ⟨head, depth, awaiting, chainClosed⟩
  cases head with
  | unknown =>
    refine ⟨lexeme.head, ?_, rfl⟩
    simp only [Lexeme.head]
    split <;> first | rfl | simp_all [Category.isOpener]
  | word phaseBlock =>
    simp only [accept, noColon, ↓reduceIte]
    split
    · exact ⟨.blockBearing .alone, rfl, rfl⟩
    · exact ⟨.simple, rfl, rfl⟩
  | sub =>
    refine ⟨if lexeme.isWord then .blockBearing .alone else .simple, ?_, rfl⟩
    split <;> rfl
  | simple => exact ⟨.simple, rfl, rfl⟩
  | blockBearing chain => exact ⟨.blockBearing chain, rfl, rfl⟩

/-- At depth zero an opener that is taken leads inside its group. -/
theorem accept_opener_inside (opens : lexeme.category.isOpener = true)
    (even : boundary.depth = 0) (resumed : boundary.awaiting = false) :
    ∃ inside : Boundary, boundary.accept lexeme = (.take, inside) ∧ inside.Inside ∧
      inside.depth = 1 := by
  obtain ⟨head, settled, same⟩ := accept_opener opens boundary
  have depth : boundary.depth + lexeme.category.delta = 1 := by
    rw [even, Category.delta_opener opens, Int.zero_add]
  refine ⟨{ boundary with head, depth := 1 }, ?_, ⟨settled, resumed, Int.one_pos⟩, rfl⟩
  rw [same, settle_deep (by rw [depth]; exact Int.one_pos), depth]

/-- At depth zero an opener leads inside its group, unless the statement was complete before. -/
theorem offer_opener (opens : lexeme.category.isOpener = true) (even : boundary.depth = 0) :
    (boundary.offer lexeme).1 = .endBefore ∨
      ∃ inside : Boundary, boundary.offer lexeme = (.take, inside) ∧ inside.Inside ∧
        inside.depth = 1 := by
  by_cases awaiting : boundary.awaiting = true
  · simp only [offer, awaiting, ↓reduceIte]
    split
    · split
      · exact .inr (accept_opener_inside opens even rfl)
      · exact .inl rfl
    · exact .inl rfl
  · have resumed : boundary.awaiting = false := Bool.eq_false_iff.mpr awaiting
    simp only [offer, resumed, Bool.false_eq_true, ↓reduceIte]
    exact .inr (accept_opener_inside opens even resumed)

/-- The closer that brings the depth to zero ends the statement or leaves it at depth zero. -/
theorem settle_even (even : boundary.depth + lexeme.category.delta = 0) :
    (boundary.settle lexeme).1 = .takeAndEnd ∨
      (boundary.settle lexeme).1 = .take ∧ (boundary.settle lexeme).2.depth = 0 := by
  have notLeft : ¬ boundary.depth + lexeme.category.delta < 0 := by omega
  have notDeep : ¬ 0 < boundary.depth + lexeme.category.delta := by omega
  simp only [settle, notLeft, notDeep, ↓reduceIte]
  repeat' split
  all_goals simp [even]

/-- The closer of the outermost group ends the statement or leaves it at depth zero. -/
theorem Inside.offer_outermost (inside : boundary.Inside) (outermost : boundary.depth = 1)
    (closes : lexeme.category.isCloser = true) :
    (boundary.offer lexeme).1 = .takeAndEnd ∨
      (boundary.offer lexeme).1 = .take ∧ (boundary.offer lexeme).2.depth = 0 := by
  rw [offer_settled inside.settled inside.resumed]
  apply settle_even
  rw [outermost, Category.delta_closer closes]
  rfl

/-- At depth zero a lexeme that is no bracket ends the statement, stands behind it, or leaves it
at depth zero. -/
theorem accept_even (even : boundary.depth + lexeme.category.delta = 0)
    (flat : boundary.depth = 0) :
    (boundary.accept lexeme).1 = .takeAndEnd ∨
      (boundary.accept lexeme).1 = .take ∧ (boundary.accept lexeme).2.depth = 0 := by
  rcases boundary with ⟨head, depth, awaiting, chainClosed⟩
  cases head with
  | unknown => exact settle_even even
  | word phaseBlock =>
    simp only [accept]
    split
    · exact .inr ⟨rfl, flat⟩
    · split
      · exact settle_even even
      · exact settle_even even
  | sub => exact settle_even even
  | simple => exact settle_even even
  | blockBearing chain => exact settle_even even

theorem offer_even (even : boundary.depth + lexeme.category.delta = 0)
    (flat : boundary.depth = 0) :
    (boundary.offer lexeme).1 = .endBefore ∨ (boundary.offer lexeme).1 = .takeAndEnd ∨
      (boundary.offer lexeme).1 = .take ∧ (boundary.offer lexeme).2.depth = 0 := by
  simp only [offer]
  split
  · split
    · split
      · exact .inr (accept_even even flat)
      · exact .inl rfl
    · exact .inl rfl
  · exact .inr (accept_even even flat)

/-- At depth zero a terminator ends the statement that takes it. -/
theorem settle_terminator (ends : lexeme.category = .terminator) (flat : boundary.depth = 0) :
    (boundary.settle lexeme).1 = .takeAndEnd := by
  have depth : boundary.depth + Category.terminator.delta = 0 := by
    rw [flat]
    rfl
  simp [settle, depth, ends]

theorem accept_terminator (ends : lexeme.category = .terminator) (flat : boundary.depth = 0) :
    (boundary.accept lexeme).1 = .takeAndEnd := by
  rcases boundary with ⟨head, depth, awaiting, chainClosed⟩
  cases head with
  | word phaseBlock =>
    simp only [accept, ends, reduceCtorEq, ↓reduceIte, decide_false, Bool.and_false,
      Bool.false_eq_true]
    exact settle_terminator ends flat
  | _ => exact settle_terminator ends flat

/-- At depth zero no statement goes on behind a terminator. -/
theorem offer_terminator (ends : lexeme.category = .terminator) (flat : boundary.depth = 0) :
    (boundary.offer lexeme).1 = .endBefore ∨ (boundary.offer lexeme).1 = .takeAndEnd := by
  simp only [offer]
  split
  · split
    · split
      · exact .inr (accept_terminator ends flat)
      · exact .inl rfl
    · exact .inl rfl
  · exact .inr (accept_terminator ends flat)

end Boundary

end SigilScript
