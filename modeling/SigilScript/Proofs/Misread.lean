import SigilScript.Proofs.Grammar.Operand

/-! # Chains that the scanner misreads

The scanner looks one token back to tell whether a slash divides. Behind a chain that ends in an
operator or in the braces behind a group in parentheses this is not enough: it takes the operator
for one that an operand follows, and the braces for a block.
-/

namespace SigilScript

/-- Blocks right behind each other. -/
inductive Braces : List Lexeme → Prop where
  | nil : Braces []
  | more {run block : List Lexeme} (earlier : Braces run) (isBlock : IsBlock block) :
    Braces (run ++ block)

/-- The ways in which a chain ends an operand but for the scanner: in a step or the star of a
dereference, or in braces behind a group in parentheses. -/
inductive Misread : List Lexeme → Prop where
  | operator (front : List Lexeme) {last : Lexeme}
    (role : last.category ∈ [.unaryOperator, .binaryOperator]) : Misread (front ++ [last])
  | braces (front : List Lexeme) {paren : Lexeme} {run block : List Lexeme}
    (closes : paren.category = .rightParen) (earlier : Braces run) (isBlock : IsBlock block) :
    Misread (front ++ paren :: (run ++ block))

namespace Context

variable {context : Context} {front block lexemes : List Lexeme} {last intro : Lexeme}

/-- Behind a lexeme that is no brace its role decides. -/
theorem Reads.afterOperand_concat (reads : context.Reads (front ++ [last]))
    (role : last.category ∈ [.var, .rightParen, .rightBracket, .identifier, .unaryOperator,
      .binaryOperator]) :
    (context.after ((front ++ [last]).map Lexeme.token)).afterOperand = last.category.isValue := by
  rw [reads.after_concat.1]
  simp only [next, ← reads.after_concat.2]
  simp only [List.mem_cons, List.not_mem_nil, or_false] at role
  rcases role with role | role | role | role | role | role <;> rw [role] <;> rfl

/-- Behind braces that stand behind a group in parentheses a further brace opens a block. -/
theorem Reads.opensBlock_braces {paren : Lexeme} {run : List Lexeme} (braces : Braces run)
    (closes : paren.category = .rightParen) (reads : context.Reads (front ++ paren :: run)) :
    (context.after ((front ++ paren :: run).map Lexeme.token)).opensBlock = true := by
  induction braces with
  | nil =>
    rw [reads.opensBlock_other (by rw [closes]; decide), closes]
    rfl
  | @more run block _ isBlock ih =>
    rw [← List.cons_append, ← List.append_assoc] at reads ⊢
    rw [(reads.behind_block isBlock).1]
    exact ih reads.split.1

/-- Where a subscript may follow, a brace opens a block for the scanner only behind a group in
parentheses and braces. -/
theorem Reads.braces_of_opensBlock (reads : context.Reads lexemes) (ended : Ended lexemes)
    (opens : (context.after (lexemes.map Lexeme.token)).opensBlock = true) :
    ∃ (front : List Lexeme) (paren : Lexeme) (run : List Lexeme),
      lexemes = front ++ paren :: run ∧ paren.category = .rightParen ∧ Braces run := by
  induction ended with
  | @value front last role =>
    simp only [List.mem_cons, List.not_mem_nil, or_false] at role
    rcases role with role | role | role
    · rw [reads.opensBlock_other (by rw [role]; decide), role] at opens
      contradiction
    · exact ⟨front, last, [], rfl, role, .nil⟩
    · rw [reads.opensBlock_other (by rw [role]; decide), role] at opens
      contradiction
  | @behind front block _ isBlock ih =>
    rw [(reads.behind_block isBlock).1] at opens
    obtain ⟨front, paren, run, rfl, closes, braces⟩ := ih reads.split.1 opens
    refine ⟨front, paren, run ++ block, ?_, closes, .more braces isBlock⟩
    rw [List.append_assoc, List.cons_append]
  | @introduced front intro block role isBlock =>
    simp only [List.mem_cons, List.not_mem_nil, or_false] at role
    rcases role with role | role
    · rw [(reads.behind_introduced isBlock (by rw [role]; decide)).1, role] at opens
      contradiction
    · rw [(reads.behind_introduced isBlock (by rw [role]; decide)).1, role] at opens
      contradiction

theorem Reads.afterOperand_of_misread (reads : context.Reads lexemes) (misread : Misread lexemes) :
    (context.after (lexemes.map Lexeme.token)).afterOperand = false := by
  cases misread with
  | @operator front last role =>
    simp only [List.mem_cons, List.not_mem_nil, or_false] at role
    rw [reads.afterOperand_concat (by rcases role with role | role <;> simp [role])]
    rcases role with role | role <;> rw [role] <;> rfl
  | @braces front paren run block closes earlier isBlock =>
    rw [← List.cons_append, ← List.append_assoc] at reads ⊢
    rw [(reads.behind_block isBlock).2, reads.split.1.opensBlock_braces earlier closes]
    rfl

theorem Reads.misread_of_afterOperand (reads : context.Reads lexemes) (ends : EndsChain lexemes)
    (fresh : (context.after (lexemes.map Lexeme.token)).afterOperand = false) :
    Misread lexemes := by
  cases ends with
  | ended ended =>
    cases ended with
    | @value front last role =>
      simp only [List.mem_cons, List.not_mem_nil, or_false] at role
      have listed : last.category ∈ [.var, .rightParen, .rightBracket, .identifier,
          .unaryOperator, .binaryOperator] := by
        rcases role with role | role | role <;> simp [role]
      rw [reads.afterOperand_concat listed] at fresh
      rcases role with role | role | role <;> rw [role] at fresh <;> contradiction
    | @behind front block ended isBlock =>
      rw [(reads.behind_block isBlock).2, Bool.not_eq_false'] at fresh
      obtain ⟨front, paren, run, rfl, closes, braces⟩ :=
        reads.split.1.braces_of_opensBlock ended fresh
      rw [List.append_assoc, List.cons_append]
      exact .braces front closes braces isBlock
    | @introduced front intro block role isBlock =>
      simp only [List.mem_cons, List.not_mem_nil, or_false] at role
      rcases role with role | role <;>
      · rw [(reads.behind_introduced isBlock (by rw [role]; decide)).2, role] at fresh
        contradiction
  | @name front last role =>
    rw [reads.afterOperand_concat (by simp [role]), role] at fresh
    contradiction
  | operator front role => exact .operator front role

/-- Behind a chain a slash divides for the scanner unless the chain is misread. -/
theorem Reads.afterOperand_iff_misread (reads : context.Reads lexemes)
    (ends : EndsChain lexemes) :
    (context.after (lexemes.map Lexeme.token)).afterOperand = false ↔ Misread lexemes :=
  ⟨reads.misread_of_afterOperand ends, reads.afterOperand_of_misread⟩

end Context

end SigilScript
