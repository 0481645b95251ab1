import SigilScript.Proofs.Collector
import SigilScript.Proofs.Grammar.Complete

/-! # Programs and blocks

A block is parsed as a program of its own: the statements of a list of lexemes are the same
whether they stand at the top of a program or in the braces of a block.
-/

namespace SigilScript

theorem parseBlock_eq_filterMap (lexemes : List Lexeme) :
    parseBlock lexemes = (splitStatements lexemes).filterMap parseStatement := by
  rw [parseBlock_eq, Grammar.readStatements, funext parseStatement_eq]

/-- A program is parsed as a block of its statements. -/
theorem parseItems_map_ok (lexemes : List Lexeme) :
    parseItems (lexemes.map .ok) = parseBlock lexemes := by
  rw [parseItems_ok, parseBlock_eq_filterMap]

variable {opener closer : Lexeme} {lexemes : List Lexeme}

/-- A bare block is one piece, which its closing brace completes. -/
theorem Collector.collect_block (opens : opener.category = .leftBrace)
    (closes : closer.category = .rightBrace) (nested : Nested lexemes) (asked : Nat) :
    ∃ asked' : Nat, (start asked).collect (opener :: (lexemes ++ [closer])) =
      ([⟨opener :: (lexemes ++ [closer]), none, asked'⟩], start asked') := by
  have entered : (start asked).boundary.offer opener =
      (.take, ⟨.blockBearing .alone, 1, false, false⟩) := by
    simp [start, Boundary.start, Boundary.offer, Boundary.accept, Boundary.settle, Lexeme.head,
      opens, Category.delta, Category.isOpener]
  have ended : Boundary.offer ⟨.blockBearing .alone, 1, false, false⟩ closer =
      (.takeAndEnd, ⟨.blockBearing .alone, 0, false, false⟩) := by
    simp [Boundary.offer, Boundary.accept, Boundary.settle, closes, Category.delta,
      Category.isOpener, Category.isCloser]
  have inside : Boundary.Inside ⟨.blockBearing .alone, 1, false, false⟩ :=
    ⟨rfl, rfl, Int.one_pos⟩
  rw [collect_take entered, collect_append, collect_inside _ inside nested, taking_taking,
    collect_cons, boundary_taking]
  simp only [take, asking, boundary_taking, ended, collect, List.nil_append, List.append_nil]
  refine ⟨_, Prod.ext ?_ rfl⟩
  simp only [taking, start, piece, List.reverse_append, List.reverse_cons, List.reverse_nil,
    List.nil_append, List.append_nil, List.reverse_reverse, List.cons_append]

/-- A bare block is parsed as a block of the statements inside it. -/
theorem parseStatement_block (opens : opener.category = .leftBrace)
    (closes : closer.category = .rightBrace) (nested : Nested lexemes) :
    parseStatement (opener :: (lexemes ++ [closer])) = some (.block none (parseBlock lexemes)) := by
  have partner : opener.category.closer? = some closer.category := by
    rw [opens, closes]
    rfl
  have whole : Grammar.withoutTerminator (opener :: (lexemes ++ [closer])) =
      opener :: (lexemes ++ [closer]) := by
    rw [← List.cons_append, Grammar.withoutTerminator, List.getLast?_concat]
    simp [closes]
  have noModifier :
      cutAtTopLevel? Lexeme.isModifier 0 (opener :: (lexemes ++ [closer])) = none := by
    have unwanted : opener.isModifier = false := by simp [Lexeme.isModifier, opens]
    rw [cutAtTopLevel?_group Lexeme.isModifier partner unwanted nested]
    rfl
  have simple : Grammar.full.readModified opener (lexemes ++ [closer]) =
      .block none (parseBlock lexemes) := by
    simp only [Grammar.readModified, opens, reduceCtorEq, ↓reduceIte, noModifier,
      Grammar.readSimple, Grammar.readBlock, readGroup, takeGroup_nested partner nested,
      Node.finish, Grammar.full_statements, parseBlock_eq]
  rw [parseStatement_eq, Grammar.readStatement, whole]
  obtain ⟨second, rest, same⟩ := List.exists_cons_of_ne_nil
    (List.append_ne_nil_of_right_ne_nil lexemes (List.cons_ne_nil closer []))
  rw [same] at simple ⊢
  simp only [opens, reduceCtorEq, false_and, ↓reduceIte, simple]

/-- The statements of a program are those of a block, and a program that is one block in braces is
parsed as the block of the program inside. -/
theorem parseItems_block :
    (∀ lexemes : List Lexeme, parseItems (lexemes.map .ok) = parseBlock lexemes ∧
      parseBlock lexemes = (splitStatements lexemes).filterMap parseStatement) ∧
    ∀ {opener closer : Lexeme} {lexemes : List Lexeme}, opener.category = .leftBrace →
      closer.category = .rightBrace → Nested lexemes →
        parseItems ((opener :: (lexemes ++ [closer])).map .ok) =
          [.block none (parseItems (lexemes.map .ok))] := by
  have same (lexemes : List Lexeme) : parseItems (lexemes.map .ok) = parseBlock lexemes := by
    rw [parseItems_ok, parseBlock_eq_filterMap]
  refine ⟨fun lexemes => ⟨same lexemes, parseBlock_eq_filterMap lexemes⟩, ?_⟩
  intro opener closer lexemes opens closes nested
  have pieces := Collector.pieces_append (.start 0) (opener :: (lexemes ++ [closer])) []
  obtain ⟨asked, block⟩ := Collector.collect_block opens closes nested 0
  rw [List.append_nil, block] at pieces
  rw [parseItems_eq, pieces, same]
  exact congrArg Option.toList (parseStatement_block opens closes nested)

/-- One statement in braces. -/
theorem parseItems_block_one :
    parseItems (([⟨⟨.openBrace, "\x7b", ⟨1, 1⟩⟩, .leftBrace⟩, ⟨⟨.number, "1", ⟨1, 2⟩⟩, .literal⟩,
        ⟨⟨.semicolon, ";", ⟨1, 3⟩⟩, .terminator⟩, ⟨⟨.closeBrace, "\x7d", ⟨1, 4⟩⟩, .rightBrace⟩] :
          List Lexeme).map .ok) =
      [.block none (parseItems (([⟨⟨.number, "1", ⟨1, 2⟩⟩, .literal⟩,
        ⟨⟨.semicolon, ";", ⟨1, 3⟩⟩, .terminator⟩] : List Lexeme).map .ok))] :=
  parseItems_block.2 rfl rfl (.plain rfl rfl (.plain rfl rfl .nil))

end SigilScript
