import SigilScript.Proofs.Grammar.StatementPlacement

/-! # The complete grammar

The levels of the grammar agree on every list that they read, so each production can be taken at
the level its list asks for. The grammar of these productions is its own next step: it satisfies
the equations of the productions without a bound, and what is parsed is what it reads.
-/

namespace SigilScript

theorem Parse.moved_id {α : Type} {tree : α → α} (same : ∀ value, tree value = value)
    (parse : Parse α) : parse.moved tree id = parse :=
  Prod.ext (same parse.1) (List.map_id parse.2)

theorem Node.map_moved_id (nodes : List Node) : nodes.map (Node.moved id) = nodes := by
  rw [funext Node.moved_id, List.map_id']

theorem Clause.map_moved_id (clauses : List (Clause Node)) :
    clauses.map (Clause.map (Node.moved id)) = clauses := by
  rw [← Node.movedClauses_eq_map, Node.movedClauses_id]

namespace Grammar

/-- The grammar that reads every list: each production at the level that its list asks for. -/
def full : Grammar where
  whole anchor lexemes := (level (lexemes.length + 1)).whole anchor lexemes
  operation bound lexeme rest := (level (rest.length + 1)).operation bound lexeme rest
  climb bound node rest := (level (rest.length + 1)).climb bound node rest
  operand lexeme rest := (level (rest.length + 1)).operand lexeme rest
  primary lexeme rest := (level (rest.length + 1)).primary lexeme rest
  chain node rest := (level (rest.length + 1)).chain node rest
  items rest := (level (rest.length + 1)).items rest
  arguments rest := (level (rest.length + 1)).arguments rest
  attributes := readAttributes
  clauses finish rest := (level (rest.length + 1)).clauses finish rest
  statements lexemes := (level (lexemes.length + 1)).statements lexemes

/-- The complete grammar leaves an end of what it was given. -/
theorem consumes_full : full.Consumes where
  operation bound lexeme rest := (consumes_level (rest.length + 1)).operation bound lexeme rest
  climb bound node rest := (consumes_level (rest.length + 1)).climb bound node rest
  operand lexeme rest := (consumes_level (rest.length + 1)).operand lexeme rest
  primary lexeme rest := (consumes_level (rest.length + 1)).primary lexeme rest
  chain node rest := (consumes_level (rest.length + 1)).chain node rest
  items rest := (consumes_level (rest.length + 1)).items rest
  arguments rest := (consumes_level (rest.length + 1)).arguments rest
  attributes := readAttributes_suffix
  clauses finish rest := (consumes_level (rest.length + 1)).clauses finish rest

/-- On the lists that a level reads, the complete grammar follows it. -/
theorem full_follows_level (move : Position → Position) (n : Nat) :
    Follows move n full (level n) where
  whole anchor lexemes short := by
    simp only [full, List.length_map]
    exact (follows_level move short).whole anchor lexemes (Nat.lt_succ_self _)
  operation bound lexeme rest short := by
    simp only [full, List.length_map]
    exact (follows_level move short).operation bound lexeme rest (Nat.lt_succ_self _)
  climb bound node rest short := by
    simp only [full, List.length_map]
    exact (follows_level move short).climb bound node rest (Nat.lt_succ_self _)
  operand lexeme rest short := by
    simp only [full, List.length_map]
    exact (follows_level move short).operand lexeme rest (Nat.lt_succ_self _)
  primary lexeme rest short := by
    simp only [full, List.length_map]
    exact (follows_level move short).primary lexeme rest (Nat.lt_succ_self _)
  chain node rest short := by
    simp only [full, List.length_map]
    exact (follows_level move short).chain node rest (Nat.lt_succ_self _)
  items rest short := by
    simp only [full, List.length_map]
    exact (follows_level move short).items rest (Nat.lt_succ_self _)
  arguments rest short := by
    simp only [full, List.length_map]
    exact (follows_level move short).arguments rest (Nat.lt_succ_self _)
  attributes rest := by
    rw [attributes_level]
    exact readAttributes_moved rest
  clauses finish rest short := by
    simp only [full, List.length_map]
    exact (follows_level move short).clauses finish rest (Nat.lt_succ_self _)
  statements lexemes short := by
    simp only [full, List.length_map]
    exact (follows_level move short).statements lexemes (Nat.lt_succ_self _)

/-- One step further, the complete grammar follows the level that is one step further. -/
theorem step_full_follows (n : Nat) : Follows id (n + 1) full.step (level (n + 1)) :=
  (full_follows_level id n).step (consumes_level n)

/-- The complete grammar is its own next step. -/
theorem step_full : full.step = full := by
  have whole : full.step.whole = full.whole := by
    funext anchor lexemes
    have same := (step_full_follows lexemes.length).whole anchor lexemes (Nat.lt_succ_self _)
    rwa [Lexeme.map_moved_id, Node.moved_id] at same
  have operation : full.step.operation = full.operation := by
    funext bound lexeme rest
    have same := (step_full_follows rest.length).operation bound lexeme rest (Nat.lt_succ_self _)
    rwa [Lexeme.map_moved_id, Parse.moved_id Node.moved_id] at same
  have climb : full.step.climb = full.climb := by
    funext bound node rest
    have same := (step_full_follows rest.length).climb bound node rest (Nat.lt_succ_self _)
    rwa [Lexeme.map_moved_id, Node.moved_id, Parse.moved_id Node.moved_id] at same
  have operand : full.step.operand = full.operand := by
    funext lexeme rest
    have same := (step_full_follows rest.length).operand lexeme rest (Nat.lt_succ_self _)
    rwa [Lexeme.map_moved_id, Parse.moved_id Node.moved_id] at same
  have primary : full.step.primary = full.primary := by
    funext lexeme rest
    have same := (step_full_follows rest.length).primary lexeme rest (Nat.lt_succ_self _)
    rwa [Lexeme.map_moved_id, Parse.moved_id Node.moved_id] at same
  have chain : full.step.chain = full.chain := by
    funext node rest
    have same := (step_full_follows rest.length).chain node rest (Nat.lt_succ_self _)
    rwa [Lexeme.map_moved_id, Node.moved_id, Parse.moved_id Node.moved_id] at same
  have items : full.step.items = full.items := by
    funext rest
    have same := (step_full_follows rest.length).items rest (Nat.lt_succ_self _)
    rwa [Lexeme.map_moved_id, Parse.moved_id Node.map_moved_id] at same
  have arguments : full.step.arguments = full.arguments := by
    funext rest
    have same := (step_full_follows rest.length).arguments rest (Nat.lt_succ_self _)
    rwa [Lexeme.map_moved_id, Parse.moved_id Node.map_moved_id] at same
  have clauses : full.step.clauses = full.clauses := by
    funext finish rest
    have same := (step_full_follows rest.length).clauses finish rest (Nat.lt_succ_self _)
    rwa [Lexeme.map_moved_id, Parse.moved_id Clause.map_moved_id] at same
  have statements : full.step.statements = full.statements := by
    funext lexemes
    have same := (step_full_follows lexemes.length).statements lexemes (Nat.lt_succ_self _)
    rwa [Lexeme.map_moved_id, Node.map_moved_id] at same
  calc full.step
      = ⟨full.step.whole, full.step.operation, full.step.climb, full.step.operand,
          full.step.primary, full.step.chain, full.step.items, full.step.arguments,
          full.step.attributes, full.step.clauses, full.step.statements⟩ := rfl
    _ = full := by
      rw [whole, operation, climb, operand, primary, chain, items, arguments, clauses,
        statements]
      rfl

/-! ## The equations of the productions -/

theorem full_whole : full.whole = full.readWhole := by
  conv_lhs => rw [← step_full]
  rfl

theorem full_operation : full.operation = full.readOperation := by
  conv_lhs => rw [← step_full]
  rfl

theorem full_climb : full.climb = full.readClimb := by
  conv_lhs => rw [← step_full]
  rfl

theorem full_operand : full.operand = full.readOperand := by
  conv_lhs => rw [← step_full]
  rfl

theorem full_primary : full.primary = full.readPrimary := by
  conv_lhs => rw [← step_full]
  rfl

theorem full_chain : full.chain = full.readChain := by
  conv_lhs => rw [← step_full]
  rfl

theorem full_items : full.items = full.readItems := by
  conv_lhs => rw [← step_full]
  rfl

theorem full_arguments : full.arguments = full.readArguments := by
  conv_lhs => rw [← step_full]
  rfl

theorem full_clauses : full.clauses = full.readClauses := by
  conv_lhs => rw [← step_full]
  rfl

theorem full_statements : full.statements = full.readStatements := by
  conv_lhs => rw [← step_full]
  rfl

end Grammar

/-! ## What is parsed -/

theorem parseExpression_eq (anchor : Position) (lexemes : List Lexeme) :
    parseExpression anchor lexemes = Grammar.full.readWhole anchor lexemes := by
  rw [← Grammar.full_whole]
  rfl

theorem parseBlock_eq (lexemes : List Lexeme) :
    parseBlock lexemes = Grammar.full.readStatements lexemes := by
  rw [← Grammar.full_statements]
  rfl

theorem parseStatement_eq (lexemes : List Lexeme) :
    parseStatement lexemes = Grammar.full.readStatement lexemes := by
  have same := (Grammar.full_follows_level id lexemes.length).readStatement
    (Grammar.consumes_level _) lexemes (Nat.le_refl _)
  rw [Lexeme.map_moved_id, funext Node.moved_id, Option.map_id'] at same
  exact same.symm

/-- A statement that is moved is parsed as the moved tree. -/
theorem parseStatement_moved (move : Position → Position) (lexemes : List Lexeme) :
    parseStatement (lexemes.map (Lexeme.moved move)) =
      (parseStatement lexemes).map (Node.moved move) := by
  rw [parseStatement_eq]
  exact (Grammar.full_follows_level move lexemes.length).readStatement
    (Grammar.consumes_level _) lexemes (Nat.le_refl _)

end SigilScript
