import SigilScript.Proofs.Grammar.Leftover

/-! # Searches by index

A search by index finds an index of the list, and what the search by cutting finds stands around
that index: the stretch up to it, the lexeme at it, and the rest behind it. So the slices that are
taken at the indices found are always slices of the list.
-/

namespace SigilScript

variable {lexemes : List Lexeme} {start : Nat}

/-! ## One place -/

/-- A cut of what follows one index of a list, at another index. -/
structure Cut.At (cut : Cut) (lexemes : List Lexeme) (start place : Nat) : Prop where
  ordered : start ≤ place
  within : place < lexemes.length
  before : cut.before = lexemes.extract start place
  found : lexemes[place]? = some cut.found
  after : cut.after = lexemes.drop (place + 1)

theorem Cut.at_of_whole {cut : Cut} (whole : cut.whole = lexemes.drop start) :
    cut.At lexemes start (start + cut.before.length) := by
  rcases cut with ⟨before, found, after⟩
  simp only [Cut.whole] at whole
  have nonempty : lexemes.drop start ≠ [] := by
    rw [← whole]
    exact List.append_ne_nil_of_right_ne_nil _ (List.cons_ne_nil _ _)
  have inside : start < lexemes.length :=
    Nat.lt_of_not_le fun outside => nonempty (List.drop_eq_nil_of_le outside)
  have total : start + (before.length + (after.length + 1)) = lexemes.length := by
    have lengths := congrArg List.length whole
    rw [List.length_append, List.length_cons, List.length_drop] at lengths
    omega
  refine ⟨Nat.le_add_right _ _, ?_, ?_, ?_, ?_⟩
  · dsimp only
    omega
  · rw [List.extract_eq_take_drop, Nat.add_sub_cancel_left, ← whole, List.take_left]
  · rw [← List.getElem?_drop, ← whole, List.getElem?_append_right (Nat.le_refl _), Nat.sub_self]
    rfl
  · rw [Nat.add_assoc, ← List.drop_drop, ← whole, ← List.drop_drop, List.drop_left]
    rfl

/-- Behind an opener the search for its partner goes on at depth one. -/
theorem cutAtPartner?_opener {opener : Lexeme} (opens : lexemes[start]? = some opener)
    (closer : Category) :
    cutAtPartner? opener.category closer 0 (lexemes.drop start) =
      (cutAtPartner? opener.category closer 1 (lexemes.drop (start + 1))).map (Cut.push opener) := by
  obtain ⟨inside, rfl⟩ := List.getElem?_eq_some_iff.mp opens
  rw [List.drop_eq_getElem_cons inside, cutAtPartner?, if_pos rfl]

/-- The partner of an opener stands behind it in the list, and the group of the opener is the slice
between the two. Without a partner there is neither a group nor anything behind it. -/
theorem takeGroup_matchingClose {opener : Lexeme} {closer : Category}
    (opens : lexemes[start]? = some opener) (partner : opener.category.closer? = some closer) :
    match matchingClose lexemes opener.category closer start with
    | .ok close => start < close ∧ close < lexemes.length ∧
        takeGroup opener (lexemes.drop (start + 1)) =
          (.ok (lexemes.extract (start + 1) close), lexemes.drop (close + 1))
    | .error fault => takeGroup opener (lexemes.drop (start + 1)) = (.error fault, []) := by
  simp only [matchingClose, takeGroup, cutAtPartner?_opener opens, partner, opens]
  cases found : cutAtPartner? opener.category closer 1 (lexemes.drop (start + 1)) with
  | none => rfl
  | some cut =>
    have place := Cut.at_of_whole (cutAtPartner?_whole found)
    have index : start + (cut.push opener).before.length =
        start + 1 + cut.before.length := by
      simp only [Cut.push, List.length_cons]
      omega
    simp only [Option.map_some, index]
    exact ⟨place.ordered, place.within, by rw [← place.before, place.after]⟩

/-- The colon of a question mark stands behind it in the list, and the branch between them is the
slice between the two. -/
theorem cutAtColon?_ternaryColon? (lexemes : List Lexeme) (start : Nat) :
    match ternaryColon? lexemes start with
    | some colon => ∃ cut, cutAtColon? 0 0 (lexemes.drop (start + 1)) = some cut ∧
        cut.At lexemes (start + 1) colon
    | none => cutAtColon? 0 0 (lexemes.drop (start + 1)) = none := by
  simp only [ternaryColon?]
  cases found : cutAtColon? 0 0 (lexemes.drop (start + 1)) with
  | none => rfl
  | some cut => exact ⟨cut, rfl, Cut.at_of_whole (cutAtColon?_whole found)⟩

/-- A place at depth zero is one of the list, and both sides of it are slices of the list. -/
theorem cutAtTopLevel?_findTopLevel? (wanted : Lexeme → Bool) (lexemes : List Lexeme)
    (start : Nat) :
    match findTopLevel? lexemes start wanted with
    | some place => ∃ cut, cutAtTopLevel? wanted 0 (lexemes.drop start) = some cut ∧
        cut.At lexemes start place
    | none => cutAtTopLevel? wanted 0 (lexemes.drop start) = none := by
  simp only [findTopLevel?]
  cases found : cutAtTopLevel? wanted 0 (lexemes.drop start) with
  | none => rfl
  | some cut => exact ⟨cut, rfl, Cut.at_of_whole (cutAtTopLevel?_whole found)⟩

/-! ## Several places -/

/-- Places found from an index on are not before it and not behind the list, and each stands behind
the one before it. -/
theorem topLevelIndices_bounds (wanted : Lexeme → Bool) (index depth : Nat)
    (lexemes : List Lexeme) :
    (∀ place ∈ topLevelIndices wanted index depth lexemes,
      index ≤ place ∧ place < index + lexemes.length) ∧
      (topLevelIndices wanted index depth lexemes).Pairwise (· < ·) := by
  induction lexemes generalizing index depth with
  | nil => exact ⟨List.forall_mem_nil _, .nil⟩
  | cons lexeme rest ih =>
    have bounds (further : List Nat)
        (within : ∀ place ∈ further, index + 1 ≤ place ∧ place < index + 1 + rest.length)
        (ordered : further.Pairwise (· < ·)) :
        (∀ place ∈ if depth = 0 ∧ wanted lexeme then index :: further else further,
          index ≤ place ∧ place < index + (rest.length + 1)) ∧
          (if depth = 0 ∧ wanted lexeme then index :: further else further).Pairwise (· < ·) := by
      have behind : ∀ place ∈ further, index ≤ place ∧ place < index + (rest.length + 1) := by
        intro place member
        have bounds := within place member
        omega
      split
      · refine ⟨List.forall_mem_cons.mpr ⟨by omega, behind⟩, ?_⟩
        exact List.pairwise_cons.mpr ⟨fun place member => (within place member).1, ordered⟩
      · exact ⟨behind, ordered⟩
    simp only [topLevelIndices, List.length_cons]
    cases lexeme.category.depthAfter? depth with
    | none => exact bounds [] (List.forall_mem_nil _) .nil
    | some inner => exact bounds _ (ih (index + 1) inner).1 (ih (index + 1) inner).2

theorem topLevelPositions_bounds (lexemes : List Lexeme) (start : Nat) (wanted : Lexeme → Bool) :
    (∀ place ∈ topLevelPositions lexemes start wanted, start ≤ place ∧ place < lexemes.length) ∧
      (topLevelPositions lexemes start wanted).Pairwise (· < ·) := by
  obtain ⟨within, ordered⟩ := topLevelIndices_bounds wanted start 0 (lexemes.drop start)
  refine ⟨fun place member => ?_, ordered⟩
  have bounds := within place member
  rw [List.length_drop] at bounds
  omega

/-- The slices between places, from an index on. -/
def slicesBetween (lexemes : List Lexeme) : Nat → List Nat → List (List Lexeme)
  | start, [] => [lexemes.drop start]
  | start, place :: places =>
    lexemes.extract start place :: slicesBetween lexemes (place + 1) places

theorem length_slicesBetween (lexemes : List Lexeme) (start : Nat) (places : List Nat) :
    (slicesBetween lexemes start places).length = places.length + 1 := by
  induction places generalizing start with
  | nil => rfl
  | cons place places ih => rw [slicesBetween, List.length_cons, ih, List.length_cons]

/-- Several lexemes in front of the first of several parts. -/
def pushFront (front : List Lexeme) : List (List Lexeme) → List (List Lexeme)
  | [] => [front]
  | part :: parts => (front ++ part) :: parts

theorem pushSegment_ne_nil (lexeme : Lexeme) (segments : List Segment) :
    pushSegment lexeme segments ≠ [] := by
  cases segments <;> exact List.cons_ne_nil _ _

theorem map_lexemes_segmentsFrom_ne_nil (separator : Category) (depth : Nat)
    (lexemes : List Lexeme) : (segmentsFrom separator depth lexemes).map Segment.lexemes ≠ [] := by
  rw [Ne, List.map_eq_nil_iff, ← Ne]
  cases lexemes with
  | nil => exact List.cons_ne_nil _ _
  | cons lexeme rest =>
    simp only [segmentsFrom]
    split
    · exact List.cons_ne_nil _ _
    · exact pushSegment_ne_nil _ _

theorem pushFront_nil {parts : List (List Lexeme)} (nonempty : parts ≠ []) :
    pushFront [] parts = parts := by
  cases parts with
  | nil => contradiction
  | cons part parts => rfl

theorem pushFront_pushSegment (front : List Lexeme) (lexeme : Lexeme) (segments : List Segment) :
    pushFront front ((pushSegment lexeme segments).map Segment.lexemes) =
      pushFront (front ++ [lexeme]) (segments.map Segment.lexemes) := by
  cases segments with
  | nil => rfl
  | cons segment segments => simp [pushSegment, pushFront]

/-- Splitting the rest of a list, with some lexemes pending in front of it, takes slices of the
list between the places of the separators. -/
theorem slicesBetween_topLevelIndices (separator : Category) (front pending rest : List Lexeme)
    (depth : Nat) :
    slicesBetween (front ++ (pending ++ rest)) front.length
      (topLevelIndices (fun lexeme => lexeme.category = separator)
        (front.length + pending.length) depth rest) =
      pushFront pending ((segmentsFrom separator depth rest).map Segment.lexemes) := by
  induction rest generalizing front pending depth with
  | nil => simp [topLevelIndices, slicesBetween, segmentsFrom, pushFront]
  | cons lexeme rest ih =>
    have stretch : (front ++ (pending ++ lexeme :: rest)).extract front.length
        (front.length + pending.length) = pending := by
      rw [List.extract_eq_take_drop, Nat.add_sub_cancel_left, List.drop_left, List.take_left]
    have all : front ++ (pending ++ lexeme :: rest) = (front ++ (pending ++ [lexeme])) ++ rest := by
      simp
    have index : (front ++ (pending ++ [lexeme])).length = front.length + pending.length + 1 := by
      simp [Nat.add_assoc]
    have behind : (front ++ (pending ++ lexeme :: rest)).drop
        (front.length + pending.length + 1) = rest := by
      rw [all, ← index, List.drop_left]
    simp only [topLevelIndices, segmentsFrom, decide_eq_true_eq]
    cases lexeme.category.depthAfter? depth with
    | none =>
      dsimp only
      split
      · simp only [slicesBetween, stretch, behind, List.map_cons, List.map_nil, pushFront,
          List.append_nil]
      · rw [pushFront_pushSegment]
        simp [slicesBetween, pushFront]
    | some inner =>
      dsimp only
      split
      · have further := ih (front ++ (pending ++ [lexeme])) [] inner
        rw [List.nil_append, ← all, index, List.length_nil, Nat.add_zero] at further
        have parts := map_lexemes_segmentsFrom_ne_nil separator inner rest
        rw [slicesBetween, stretch, further, pushFront_nil parts, List.map_cons, pushFront,
          List.append_nil]
      · have further := ih front (pending ++ [lexeme]) inner
        rw [pushFront_pushSegment, ← further, List.length_append, List.length_singleton,
          Nat.add_assoc, List.append_assoc]
        rfl

/-- A split takes the slices between the places of its separators. -/
theorem splitTopLevel_eq_slicesBetween (separator : Category) (nonempty : lexemes ≠ []) :
    splitTopLevel lexemes separator = slicesBetween lexemes 0
      (topLevelPositions lexemes 0 fun lexeme => lexeme.category = separator) := by
  have slices := slicesBetween_topLevelIndices separator [] [] lexemes 0
  rw [pushFront_nil (map_lexemes_segmentsFrom_ne_nil separator 0 lexemes)] at slices
  cases lexemes with
  | nil => contradiction
  | cons lexeme rest => exact slices.symm

end SigilScript
