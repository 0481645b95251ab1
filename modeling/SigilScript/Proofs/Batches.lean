import SigilScript.Proofs.Completion

/-! # Items in batches

A stream of items is consumed in batches, one for each statement: items are taken until the boundary
says that the statement is complete, and faults on the way are taken with them. The faults never
move a boundary: the lexemes of the batches are the statements of the lexemes alone, and every item
is part of one batch.
-/

namespace SigilScript

/-- The faults of a classified scan, lexemes dropped. -/
def faultsOf (items : List Classified) : List ScanFault :=
  items.filterMap fun item =>
    match item with
    | .error fault => some fault
    | .ok _ => none

@[simp] theorem lexemesOf_nil : lexemesOf [] = [] := rfl

@[simp] theorem faultsOf_nil : faultsOf [] = [] := rfl

@[simp] theorem lexemesOf_error (fault : ScanFault) (items : List Classified) :
    lexemesOf (.error fault :: items) = lexemesOf items := rfl

@[simp] theorem lexemesOf_cons_ok (lexeme : Lexeme) (items : List Classified) :
    lexemesOf (.ok lexeme :: items) = lexeme :: lexemesOf items := rfl

@[simp] theorem faultsOf_error (fault : ScanFault) (items : List Classified) :
    faultsOf (.error fault :: items) = fault :: faultsOf items := rfl

@[simp] theorem faultsOf_cons_ok (lexeme : Lexeme) (items : List Classified) :
    faultsOf (.ok lexeme :: items) = faultsOf items := rfl

/-- What the tree of a batch depends on: its lexemes and its first fault. -/
def contentOf (batch : List Classified) : List Lexeme × Option ScanFault :=
  (lexemesOf batch, (faultsOf batch).head?)

namespace Boundary

/-- Cut a stream behind the items of the statement that is being collected. A fault on the way is
one of them; a lexeme before which the statement was complete is not. -/
def batch (boundary : Boundary) : List Classified → List Classified × List Classified
  | [] => ([], [])
  | .error fault :: items => (.error fault :: (boundary.batch items).1, (boundary.batch items).2)
  | .ok lexeme :: items =>
    match boundary.offer lexeme with
    | (.take, further) => (.ok lexeme :: (further.batch items).1, (further.batch items).2)
    | (.takeAndEnd, _) => ([.ok lexeme], items)
    | (.endBefore, _) => ([], .ok lexeme :: items)

/-- A batch and what remains behind it are the items that were given. -/
theorem batch_append (boundary : Boundary) (items : List Classified) :
    (boundary.batch items).1 ++ (boundary.batch items).2 = items := by
  induction items generalizing boundary with
  | nil => rfl
  | cons item items ih =>
    cases item with
    | error fault => exact congrArg (_ :: ·) (ih boundary)
    | ok lexeme =>
      simp only [batch]
      rcases boundary.offer lexeme with ⟨_ | _ | _, further⟩
      · exact congrArg (_ :: ·) (ih further)
      · rfl
      · rfl

/-- A new statement takes one item at least. -/
theorem length_batch_lt {items : List Classified} (nonempty : items ≠ []) :
    (start.batch items).2.length < items.length := by
  obtain ⟨item, more, rfl⟩ := List.exists_cons_of_ne_nil nonempty
  have taken : (start.batch (item :: more)).1 ≠ [] := by
    cases item with
    | error fault => exact List.cons_ne_nil _ _
    | ok lexeme =>
      have began := offer_start_ne_endBefore lexeme
      simp only [batch]
      rcases offered : start.offer lexeme with ⟨_ | _ | _, further⟩
      · exact List.cons_ne_nil _ _
      · exact List.cons_ne_nil _ _
      · rw [offered] at began
        contradiction
  have whole := congrArg List.length (start.batch_append (item :: more))
  rw [List.length_append] at whole
  have positive := List.length_pos_iff.mpr taken
  omega

/-- The lexemes of a batch are those that the boundary takes of all lexemes. -/
theorem lexemesOf_batch (boundary : Boundary) (items : List Classified) :
    lexemesOf (boundary.batch items).1 =
        (lexemesOf items).take (boundary.extent (lexemesOf items)) ∧
      lexemesOf (boundary.batch items).2 =
        (lexemesOf items).drop (boundary.extent (lexemesOf items)) := by
  induction items generalizing boundary with
  | nil => exact ⟨rfl, rfl⟩
  | cons item items ih =>
    cases item with
    | error fault => exact ih boundary
    | ok lexeme =>
      simp only [batch, lexemesOf_cons_ok, extent]
      rcases boundary.offer lexeme with ⟨_ | _ | _, further⟩
      · exact ⟨congrArg (lexeme :: ·) (ih further).1, (ih further).2⟩
      · exact ⟨rfl, rfl⟩
      · exact ⟨rfl, rfl⟩

end Boundary

/-! ## Pieces -/

/-- A collector that holds something, or has something to read, makes a piece of it and of the batch
that follows, and then collects what remains from the start. -/
theorem Collector.content_pieces_batch (collector : Collector) (items : List Classified)
    (holds : collector.taken ≠ [] ∨ collector.fault.isSome = true ∨ items ≠ []) :
    (collector.pieces items).map Piece.content =
      (collector.taken.reverse ++ lexemesOf (collector.boundary.batch items).1,
          collector.fault.or (faultsOf (collector.boundary.batch items).1).head?) ::
        ((start 0).pieces (collector.boundary.batch items).2).map Piece.content := by
  induction items generalizing collector with
  | nil =>
    have something : (collector.taken.isEmpty && collector.fault.isNone) = false := by
      rcases holds with held | met | more
      · simp [held]
      · simp [Option.isNone_eq_false_iff, met]
      · contradiction
    simp only [pieces, something, Bool.false_eq_true, ↓reduceIte, Boundary.batch]
    simp [piece, Piece.content, start]
  | cons item items ih =>
    cases item with
    | error fault =>
      have met : (collector.fault.or (some fault)).isSome = true := by
        cases collector.fault <;> rfl
      rw [pieces, ih _ (.inr (.inl met))]
      simp only [Boundary.batch, lexemesOf_error, faultsOf_error, List.head?_cons, Option.or_assoc,
        Option.some_or]
    | ok lexeme =>
      rcases offered : collector.boundary.offer lexeme with ⟨_ | _ | _, further⟩
      · simp only [pieces, take, offered, Boundary.batch, List.nil_append]
        rw [ih _ (.inl (List.cons_ne_nil lexeme collector.taken))]
        simp only [List.reverse_cons, List.append_assoc, List.singleton_append, lexemesOf_cons_ok,
          faultsOf_cons_ok]
      · simp only [pieces, take, offered, Boundary.batch, List.map_append]
        rw [start, content_pieces_asked .start [] none _ 0]
        simp [piece, Piece.content, start]
      · have ended := take_endBefore collector.asking lexeme (congrArg Prod.fst offered)
        have begun : ((start collector.asked).pieces (.ok lexeme :: items)).map Piece.content =
            ((start 0).pieces (.ok lexeme :: items)).map Piece.content :=
          content_pieces_asked ..
        simp only [Boundary.batch, offered, ← begun, lexemesOf_nil, List.append_nil, faultsOf_nil,
          List.head?_nil, Option.or_none]
        exact congrArg (fun taken => (taken.1 ++ pieces taken.2 items).map Piece.content) ended

/-- The trees of a stream are the tree of its first batch, if it has one, and those of what remains. -/
theorem parseItems_batch {items : List Classified} (nonempty : items ≠ []) :
    parseItems items = (nodeOf? (contentOf (Boundary.start.batch items).1)).toList ++
      parseItems (Boundary.start.batch items).2 := by
  rw [parseItems_eq, parseItems_eq,
    Collector.content_pieces_batch (.start 0) items (.inr (.inr nonempty))]
  have content : ((Collector.start 0).taken.reverse ++ lexemesOf (Boundary.start.batch items).1,
      (Collector.start 0).fault.or (faultsOf (Boundary.start.batch items).1).head?) =
        contentOf (Boundary.start.batch items).1 := rfl
  rw [show (Collector.start 0).boundary = .start from rfl, content]
  rcases tree : nodeOf? (contentOf (Boundary.start.batch items).1) with _ | node
  · rw [List.filterMap_cons_none tree]
    rfl
  · rw [List.filterMap_cons_some tree]
    rfl

/-! ## Batches -/

/-- What remains behind this many batches. -/
def behindBatches : List Classified → Nat → List Classified
  | items, 0 => items
  | items, n + 1 => behindBatches (Boundary.start.batch items).2 n

/-- The batch of this number, counted from zero. -/
def batchAt (items : List Classified) (n : Nat) : List Classified :=
  (Boundary.start.batch (behindBatches items n)).1

theorem behindBatches_nil (n : Nat) : behindBatches [] n = [] := by
  induction n with
  | zero => rfl
  | succ n ih => exact ih

/-- As many batches as there are items leave nothing. -/
theorem behindBatches_length {items : List Classified} {n : Nat} (enough : items.length ≤ n) :
    behindBatches items n = [] := by
  induction n generalizing items with
  | zero => exact List.length_eq_zero_iff.mp (Nat.le_zero.mp enough)
  | succ n ih =>
    rcases List.eq_nil_or_concat items with rfl | ⟨front, last, rfl⟩
    · exact behindBatches_nil (n + 1)
    · have nonempty : front.concat last ≠ [] := by simp
      have shorter := Boundary.length_batch_lt nonempty
      exact ih (by omega)

/-- The first batches and what remains behind them are the items that were given. -/
theorem flatMap_batchAt (items : List Classified) (n : Nat) :
    (List.range n).flatMap (batchAt items) ++ behindBatches items n = items := by
  induction n generalizing items with
  | zero => rfl
  | succ n ih =>
    rw [List.range_succ_eq_map, List.flatMap_cons, List.flatMap_map, List.append_assoc]
    calc batchAt items 0 ++ ((List.range n).flatMap (batchAt (Boundary.start.batch items).2) ++
          behindBatches (Boundary.start.batch items).2 n)
        = batchAt items 0 ++ (Boundary.start.batch items).2 := by rw [ih]
      _ = items := Boundary.start.batch_append items

/-- The lexemes of the batches are the statements of the lexemes alone, and then nothing. -/
theorem lexemesOf_batchAt (items : List Classified) (n : Nat) :
    lexemesOf (batchAt items n) = (splitStatements (lexemesOf items)).getD n [] := by
  induction n generalizing items with
  | zero =>
    rw [batchAt, behindBatches, (Boundary.start.lexemesOf_batch items).1]
    rcases lexemesOf items with _ | ⟨lexeme, rest⟩
    · simp [splitStatements]
    · rw [splitStatements_cons]
      rfl
  | succ n ih =>
    rw [show batchAt items (n + 1) = batchAt (Boundary.start.batch items).2 n from rfl, ih,
      (Boundary.start.lexemesOf_batch items).2]
    rcases lexemesOf items with _ | ⟨lexeme, rest⟩
    · simp [splitStatements]
    · rw [splitStatements_cons]
      rfl

/-- The trees of a stream are those of its batches. -/
theorem parseItems_eq_batches {items : List Classified} {n : Nat} (enough : items.length ≤ n) :
    parseItems items = (List.range n).filterMap fun n => nodeOf? (contentOf (batchAt items n)) := by
  induction n generalizing items with
  | zero =>
    obtain rfl := List.length_eq_zero_iff.mp (Nat.le_zero.mp enough)
    rfl
  | succ n ih =>
    rcases List.eq_nil_or_concat items with rfl | ⟨front, last, rfl⟩
    · have nothing (n : Nat) : nodeOf? (contentOf (batchAt [] n)) = none := by
        rw [batchAt, behindBatches_nil]
        rfl
      exact (List.filterMap_eq_nil_iff.mpr fun m _ => nothing m).symm
    · have nonempty : front.concat last ≠ [] := by simp
      have shorter := Boundary.length_batch_lt nonempty
      rw [parseItems_batch nonempty, ih (by omega), List.range_succ_eq_map]
      rcases tree : nodeOf? (contentOf (Boundary.start.batch (front.concat last)).1) with _ | node
      · rw [List.filterMap_cons_none (by exact tree), List.filterMap_map]
        rfl
      · rw [List.filterMap_cons_some (by exact tree), List.filterMap_map]
        rfl

/-- Faults never move a boundary. The batches of a stream have the statements of its lexemes in order
and then no lexemes; every item is part of one batch; and the tree of a batch is its first fault, or,
where it has none, the tree of its statement. -/
theorem parseItems_batches (items : List Classified) :
    (∀ n, lexemesOf (batchAt items n) = (splitStatements (lexemesOf items)).getD n []) ∧
    (List.range items.length).flatMap (batchAt items) = items ∧
    (∀ n, batchAt items (items.length + n) = []) ∧
    parseItems items = (List.range items.length).filterMap fun n =>
      match faultsOf (batchAt items n) with
      | fault :: _ => some (.error fault.inTree)
      | [] => parseStatement ((splitStatements (lexemesOf items)).getD n []) := by
  refine ⟨lexemesOf_batchAt items, ?_, fun n => ?_, ?_⟩
  · have whole := flatMap_batchAt items items.length
    rwa [behindBatches_length (Nat.le_refl _), List.append_nil] at whole
  · rw [batchAt, behindBatches_length (Nat.le_add_right ..)]
    rfl
  · rw [parseItems_eq_batches (Nat.le_refl _)]
    congr 1
    funext n
    rw [← lexemesOf_batchAt, nodeOf?, contentOf]
    rcases faultsOf (batchAt items n) with _ | ⟨fault, later⟩ <;> rfl

end SigilScript
