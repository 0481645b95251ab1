import SigilScript.Proofs.Indices

/-! # Segments and their separators

Splitting at separators of depth zero loses nothing: with the separators between them again the
segments are the list that was split, and none of them has a separator left at depth zero.
Conversely properly nested segments without such separators, put together with a separator between
each two, are found again; there an empty list stands for no segments, and not for an empty one.
-/

namespace SigilScript

variable {separator : Category}

/-- Segments with the separators between them. -/
def interleave : List (List Lexeme) → List Lexeme → List Lexeme
  | segment :: segments, stop :: stops => segment ++ stop :: interleave segments stops
  | segments, _ => segments.flatten

theorem interleave_nil (segments : List (List Lexeme)) :
    interleave segments [] = segments.flatten := by
  cases segments <;> rfl

/-- The separators that stand at depth zero. -/
def separatorsAt (separator : Category) (lexemes : List Lexeme) : List Lexeme :=
  (topLevelPositions lexemes 0 fun lexeme => lexeme.category = separator).filterMap (lexemes[·]?)

/-! ## Segments put together -/

/-- Slices between places, with what stands at the places between them. -/
theorem interleave_slicesBetween {lexemes : List Lexeme} {start : Nat} {places : List Nat}
    (bounds : ∀ place ∈ places, start ≤ place ∧ place < lexemes.length)
    (ordered : places.Pairwise (· < ·)) :
    interleave (slicesBetween lexemes start places) (places.filterMap (lexemes[·]?)) =
      lexemes.drop start := by
  induction places generalizing start with
  | nil => simp [slicesBetween, interleave]
  | cons place places ih =>
    obtain ⟨⟨reached, inside⟩, later⟩ := List.forall_mem_cons.mp bounds
    obtain ⟨behind, ordered⟩ := List.pairwise_cons.mp ordered
    have further : interleave (slicesBetween lexemes (place + 1) places)
        (places.filterMap (lexemes[·]?)) = lexemes.drop (place + 1) := by
      apply ih _ ordered
      intro other member
      exact ⟨behind other member, (later other member).2⟩
    have split : lexemes.drop start = (lexemes.drop start).take (place - start) ++
        lexemes.drop place := by
      have rest := List.take_append_drop (place - start) (lexemes.drop start)
      rwa [List.drop_drop, Nat.add_sub_cancel' reached, eq_comm] at rest
    rw [List.filterMap_cons_some (List.getElem?_eq_getElem inside), slicesBetween, interleave,
      further, ← List.drop_eq_getElem_cons inside, List.extract_eq_take_drop, ← split]

theorem length_separatorsAt (separator : Category) (lexemes : List Lexeme) :
    (separatorsAt separator lexemes).length =
      (topLevelPositions lexemes 0 fun lexeme => lexeme.category = separator).length := by
  obtain ⟨within, -⟩ :=
    topLevelPositions_bounds lexemes 0 fun lexeme => decide (lexeme.category = separator)
  rw [separatorsAt, List.filterMap_length_eq_length]
  intro place member
  rw [List.getElem?_eq_getElem (within place member).2]
  rfl

/-- A split list is put together again from its segments and separators. -/
theorem interleave_splitTopLevel (separator : Category) (lexemes : List Lexeme) :
    interleave (splitTopLevel lexemes separator) (separatorsAt separator lexemes) = lexemes := by
  rcases lexemes with _ | ⟨lexeme, rest⟩
  · rfl
  · obtain ⟨within, ordered⟩ := topLevelPositions_bounds (lexeme :: rest) 0
      fun lexeme => decide (lexeme.category = separator)
    rw [splitTopLevel_eq_slicesBetween separator (List.cons_ne_nil lexeme rest), separatorsAt,
      interleave_slicesBetween within ordered, List.drop_zero]

/-! ## No separator is left -/

/-- The first segment has no separator at the depth where the list begins, and the others none at
depth zero. -/
theorem segmentsFrom_unseparated (opens : separator.isOpener = false)
    (closes : separator.isCloser = false) (depth : Nat) (lexemes : List Lexeme) :
    ∃ first others, segmentsFrom separator depth lexemes = first :: others ∧
      cutAtTopLevel? (fun lexeme => lexeme.category = separator) depth first.lexemes = none ∧
      ∀ segment ∈ others, hasTopLevel segment.lexemes separator = false := by
  induction lexemes generalizing depth with
  | nil => exact ⟨_, _, rfl, rfl, List.forall_mem_nil _⟩
  | cons lexeme rest ih =>
    simp only [segmentsFrom]
    by_cases separates : depth = 0 ∧ lexeme.category = separator
    · obtain ⟨first, others, same, unseparated, further⟩ := ih 0
      obtain ⟨rfl, rfl⟩ := separates
      simp only [Category.depthAfter?_plain opens closes, and_self, ↓reduceIte, same]
      refine ⟨_, _, rfl, rfl, List.forall_mem_cons.mpr ⟨?_, further⟩⟩
      rw [hasTopLevel, unseparated]
      rfl
    · rw [if_neg separates]
      rcases after : lexeme.category.depthAfter? depth with _ | inner
      · refine ⟨_, _, rfl, ?_, List.forall_mem_nil _⟩
        simp [cutAtTopLevel?, separates, after]
      · obtain ⟨first, others, same, unseparated, further⟩ := ih inner
        simp only [same]
        refine ⟨_, _, rfl, ?_, further⟩
        simp [cutAtTopLevel?, separates, after, unseparated]

theorem splitTopLevel_unseparated (opens : separator.isOpener = false)
    (closes : separator.isCloser = false) (lexemes : List Lexeme) :
    ∀ segment ∈ splitTopLevel lexemes separator, hasTopLevel segment separator = false := by
  rcases lexemes with _ | ⟨lexeme, rest⟩
  · exact List.forall_mem_nil _
  · obtain ⟨first, others, same, unseparated, further⟩ :=
      segmentsFrom_unseparated opens closes 0 (lexeme :: rest)
    rw [splitTopLevel, segmentsAt, same, List.map_cons, List.forall_mem_cons, List.forall_mem_map]
    refine ⟨?_, further⟩
    rw [hasTopLevel, unseparated]
    rfl

/-! ## Segments found again -/

/-- Properly nested segments are the segments of what they are put together to. -/
theorem segmentsFrom_interleave (opens : separator.isOpener = false)
    (closes : separator.isCloser = false) {segments : List (List Lexeme)} {stops : List Lexeme}
    (count : segments.length = stops.length + 1)
    (separate : ∀ stop ∈ stops, stop.category = separator)
    (nested : ∀ segment ∈ segments, Nested segment)
    (unseparated : ∀ segment ∈ segments, hasTopLevel segment separator = false) :
    (segmentsFrom separator 0 (interleave segments stops)).map Segment.lexemes = segments := by
  induction stops generalizing segments with
  | nil =>
    obtain ⟨segment, rfl⟩ := List.length_eq_one_iff.mp count
    have alone := List.forall_mem_singleton.mp unseparated
    rw [interleave_nil, List.flatten_singleton, segmentsFrom_alone opens closes alone]
    rfl
  | cons stop stops ih =>
    obtain ⟨segment, segments, rfl⟩ := List.exists_cons_of_length_eq_add_one count
    obtain ⟨first, later⟩ := List.forall_mem_cons.mp nested
    obtain ⟨alone, others⟩ := List.forall_mem_cons.mp unseparated
    obtain ⟨ends, behind⟩ := List.forall_mem_cons.mp separate
    have further := ih (Nat.succ.inj count) behind later others
    rw [interleave, segmentsFrom_behind opens closes first alone ends, List.map_cons, further]

/-- Splitting at separators is the inverse of putting segments together: a split list is made of its
segments and the separators between them, none of the segments has a separator at depth zero, and
properly nested segments of this kind are what is found again in the list that they make up. -/
theorem splitTopLevel_interleave (opens : separator.isOpener = false)
    (closes : separator.isCloser = false) :
    (∀ lexemes : List Lexeme,
      interleave (splitTopLevel lexemes separator) (separatorsAt separator lexemes) = lexemes ∧
      (lexemes ≠ [] → (splitTopLevel lexemes separator).length =
        (separatorsAt separator lexemes).length + 1) ∧
      ∀ segment ∈ splitTopLevel lexemes separator, hasTopLevel segment separator = false) ∧
    ∀ (segments : List (List Lexeme)) (stops : List Lexeme),
      segments.length = stops.length + 1 → (∀ stop ∈ stops, stop.category = separator) →
      (∀ segment ∈ segments, Nested segment ∧ hasTopLevel segment separator = false) →
      segments ≠ [[]] → splitTopLevel (interleave segments stops) separator = segments := by
  refine ⟨fun lexemes => ⟨interleave_splitTopLevel separator lexemes, ?_,
    splitTopLevel_unseparated opens closes lexemes⟩, ?_⟩
  · intro nonempty
    rw [splitTopLevel_eq_slicesBetween separator nonempty, length_slicesBetween,
      length_separatorsAt]
  · intro segments stops count separate whole other
    have found := segmentsFrom_interleave opens closes count separate
      (fun segment member => (whole segment member).1)
      (fun segment member => (whole segment member).2)
    rcases joined : interleave segments stops with _ | ⟨lexeme, rest⟩
    · rw [joined] at found
      exact absurd found.symm other
    · rw [joined] at found
      exact found

/-- The segments of `(,),,1`, of which the second is empty, and the comma in the group separates
none. -/
theorem splitTopLevel_interleave_group :
    ∃ group number : List Lexeme, ∃ first second : Lexeme, hasTopLevel group .comma = false ∧
      splitTopLevel (group ++ first :: second :: number) .comma = [group, [], number] ∧
      interleave [group, [], number] (separatorsAt .comma (group ++ first :: second :: number)) =
        group ++ first :: second :: number := by
  obtain ⟨apart, together⟩ := @splitTopLevel_interleave .comma rfl rfl
  have split := together
    [[⟨⟨.openParen, "(", ⟨1, 1⟩⟩, .leftParen⟩, ⟨⟨.comma, ",", ⟨1, 2⟩⟩, .comma⟩,
      ⟨⟨.closeParen, ")", ⟨1, 3⟩⟩, .rightParen⟩], [], [⟨⟨.number, "1", ⟨1, 6⟩⟩, .literal⟩]]
    [⟨⟨.comma, ",", ⟨1, 4⟩⟩, .comma⟩, ⟨⟨.comma, ",", ⟨1, 5⟩⟩, .comma⟩] rfl (by decide)
    (by
      simp only [List.forall_mem_cons, List.not_mem_nil, false_implies, implies_true, and_true]
      exact ⟨⟨.group rfl (.plain rfl rfl .nil) .nil, rfl⟩, ⟨.nil, rfl⟩, .plain rfl rfl .nil, rfl⟩)
    (by decide)
  refine ⟨_, _, _, _, rfl, split, ?_⟩
  exact (congrArg (interleave · _) split).symm.trans (apart _).1

end SigilScript
