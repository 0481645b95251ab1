import SigilScript.Proofs.Collector
import SigilScript.Proofs.Grammar.Complete
import SigilScript.Proofs.Scan.Composition

/-! # One program behind another

A program whose last character is a terminator can be followed by any other: the trees of both
together are the trees of the first and then those of the second, whose faults stand lower by the
lines of the first.
-/

namespace SigilScript

variable {move : Position → Position}

/-- The same item in another place. -/
def moveClassified (move : Position → Position) : Classified → Classified
  | .error fault => .error (fault.moved move)
  | .ok lexeme => .ok (lexeme.moved move)

theorem classifyAfter_moved (previous : Option Category) (items : List Scanned) :
    classifyAfter previous (items.map (moveScanned move)) =
      (classifyAfter previous items).map (moveClassified move) := by
  induction items generalizing previous with
  | nil => rfl
  | cons item items ih =>
    cases item with
    | error fault => exact congrArg (_ :: ·) (ih previous)
    | ok token => exact congrArg (_ :: ·) (ih (some (token.categoryAfter previous)))

/-- Behind a terminator roles are what they are at the start. -/
theorem classifyAfter_terminator (items : List Scanned) :
    classifyAfter (some .terminator) items = classifyAll items := by
  induction items with
  | nil => rfl
  | cons item items ih =>
    cases item with
    | error fault => exact congrArg (_ :: ·) ih
    | ok token =>
      have same : token.classify (some .terminator) = token.classify none := by
        rcases token with ⟨kind, text, position⟩
        cases kind <;> rfl
      simp only [classifyAll, classifyAfter, same]

/-! ## Pieces -/

/-- The same piece in another place. -/
def Piece.moved (move : Position → Position) (piece : Piece) : Piece :=
  ⟨piece.lexemes.map (Lexeme.moved move), piece.fault.map (ScanFault.moved move), piece.asked⟩

/-- The same collector in another place. -/
def Collector.moved (move : Position → Position) (collector : Collector) : Collector :=
  ⟨collector.boundary, collector.taken.map (Lexeme.moved move),
    collector.fault.map (ScanFault.moved move), collector.asked⟩

namespace Collector

theorem piece_moved (collector : Collector) :
    (collector.moved move).piece = collector.piece.moved move := by
  simp only [piece, moved, Piece.moved, List.map_reverse]

theorem take_moved (move : Position → Position) (collector : Collector) (lexeme : Lexeme) :
    (collector.moved move).take (lexeme.moved move) =
      ((collector.take lexeme).1.map (Piece.moved move),
        (collector.take lexeme).2.moved move) := by
  have first : (collector.moved move).boundary.offer (lexeme.moved move) =
      collector.boundary.offer lexeme := rfl
  have begun : Boundary.start.offer (lexeme.moved move) = Boundary.start.offer lexeme := rfl
  simp only [take, first, begun]
  rcases collector.boundary.offer lexeme with ⟨_ | _ | _, boundary⟩
  · rfl
  · simp only [List.map_cons, List.map_nil, ← piece_moved]
    rfl
  · rcases Boundary.start.offer lexeme with ⟨_ | _ | _, further⟩ <;>
      simp only [List.map_cons, List.map_nil, piece_moved] <;> rfl

theorem pieces_moved (collector : Collector) (items : List Classified) :
    (collector.moved move).pieces (items.map (moveClassified move)) =
      (collector.pieces items).map (Piece.moved move) := by
  induction items generalizing collector with
  | nil =>
    have taken : (collector.moved move).taken.isEmpty = collector.taken.isEmpty := List.isEmpty_map
    have fault : (collector.moved move).fault.isNone = collector.fault.isNone := Option.isNone_map
    simp only [List.map_nil, pieces, taken, fault]
    split
    · rfl
    · exact congrArg (· :: []) (piece_moved { collector with asked := collector.asked + 1 })
  | cons item items ih =>
    cases item with
    | error fault =>
      have further := ih { collector with
        fault := collector.fault.or (some fault), asked := collector.asked + 1 }
      simp only [moved, Option.map_or, Option.map_some] at further
      exact further
    | ok lexeme =>
      have taken := take_moved move { collector with asked := collector.asked + 1 } lexeme
      have further := ih (take { collector with asked := collector.asked + 1 } lexeme).2
      simp only [moved] at taken
      simp only [List.map_cons, moveClassified, pieces, moved, taken, List.map_append]
      exact congrArg _ further

end Collector

theorem Piece.node?_moved (piece : Piece) :
    (piece.moved move).node? = piece.node?.map (Node.moved move) := by
  rcases piece with ⟨lexemes, fault, asked⟩
  cases fault with
  | none => exact parseStatement_moved move lexemes
  | some fault => rfl

/-- Items in another place make the same trees there. -/
theorem parseItems_moved (items : List Classified) :
    parseItems (items.map (moveClassified move)) = (parseItems items).map (Node.moved move) := by
  have pieces : piecesOf (items.map (moveClassified move)) =
      (piecesOf items).map (Piece.moved move) := Collector.pieces_moved (.start 0) items
  rw [parseItems, pieces, List.filterMap_map, parseItems, List.map_filterMap]
  exact congrArg (List.filterMap · _) (funext Piece.node?_moved)

/-! ## Programs -/

theorem classifyAll_ok (tokens : List Token) :
    classifyAll (tokens.map .ok) = (Context.start.lexemes tokens).map .ok := by
  have whole := Context.start.classifyAfter_ok tokens []
  rwa [List.append_nil, classifyAfter, List.append_nil] at whole

/-- The trees of a text without scan faults are those of its statements. -/
theorem parse_of_scan {text : List Char} {tokens : List Token}
    (scanned : scan text = tokens.map .ok) :
    parse text = (splitStatements (Context.start.lexemes tokens)).filterMap parseStatement := by
  rw [parse, scanned, classifyAll_ok, parseItems_ok]

theorem lexemesOf_ok (lexemes : List Lexeme) : lexemesOf (lexemes.map .ok) = lexemes := by
  induction lexemes with
  | nil => rfl
  | cons lexeme rest ih => exact congrArg (lexeme :: ·) ih

/-- A program whose last character is a terminator, and then another one. -/
theorem parse_append (text following : List Char) {tokens : List Token}
    (ends : Terminated text tokens)
    (nested : Nested (lexemesOf (classifyAll (tokens.map .ok))))
    (noMark : following.head? ≠ some '\ufeff') :
    parse (text ++ '\n' :: following) = parse text ++
      (parse following).map (Node.moved (Position.lower (text.count '\n' + 1))) := by
  rw [classifyAll_ok, lexemesOf_ok] at nested
  have scanned := scan_append ends nested noMark
  have alone := scan_of_tokenize ends.sound
  obtain ⟨front, last, final, rfl, terminator, -, -⟩ := ends.run
  have fresh := Context.after_terminated nested terminator
  have split := Context.start.lexemes_append front [last]
  have role : (last.classify (Context.start.after front).previous).category = .terminator :=
    Token.category_classify_terminator terminator _
  have before : Nested (Context.start.lexemes front) := by
    apply nested.init split
    rw [role]
    rfl
  have classified : classifyAll (scan (text ++ '\n' :: following)) =
      (Context.start.lexemes front ++ [last.classify (Context.start.after front).previous]).map
          .ok ++
        (classifyAll (scan following)).map
          (moveClassified (Position.lower (text.count '\n' + 1))) := by
    have whole := Context.start.classifyAfter_ok (front ++ [last])
      ((scan following).map (moveScanned (Position.lower (text.count '\n' + 1))))
    rw [fresh, split] at whole
    rw [scanned]
    apply whole.trans
    rw [show Context.fresh.previous = some .terminator from rfl, classifyAfter_terminator,
      classifyAll, classifyAfter_moved, classifyAll]
    rfl
  rw [parse, classified, parseItems_append before role, parseItems_moved, parse, parse, alone,
    classifyAll_ok, split]
  rfl

/-- A block with a terminator behind it, and a stray closer in the second line. -/
theorem parse_append_block :
    parse ("\x7b1\x7d;".toList ++ '\n' :: [')']) = parse "\x7b1\x7d;".toList ++
      (parse [')']).map (Node.moved (Position.lower 1)) := by
  have ends : Terminated "\x7b1\x7d;".toList
      [⟨.openBrace, "\x7b", ⟨1, 1⟩⟩, ⟨.number, "1", ⟨1, 2⟩⟩, ⟨.closeBrace, "\x7d", ⟨1, 3⟩⟩,
        ⟨.semicolon, ";", ⟨1, 4⟩⟩] := by
    refine ⟨by rfl, by rfl, ⟨.semicolon, ";", ⟨1, 4⟩⟩,
      (Scanner.start "\x7b1\x7d;".toList).next.2.next.2.next.2.next.2, ?_, rfl, by rfl⟩
    exact .tail _ (.tail _ (.tail _ (.head _)))
  refine parse_append _ _ ends ?_ (by decide)
  exact .group rfl (.plain rfl rfl .nil) (.plain rfl rfl .nil)

end SigilScript
