import SigilScript.Proofs.Composition
import SigilScript.Proofs.Grammar.StatementShape
import SigilScript.Proofs.Scan.Closing

/-! # Where scanner and boundary disagree

The scanner and the boundary each decide what a closing brace closes. In a program without faults
they agree on the brace that completes a statement, except in the ways that are listed here: then
the scanner takes the brace for the end of an operand, and a slash behind it divides.
-/

namespace SigilScript

/-- How the brace that completes a statement behind others ends an operand for the scanner: it
closes a block with a label, or one that a word with the role of a declarator or an operator
introduces, or a bare block behind what is misjudged itself; or it closes no block of the
statement, but stands in the condition of a modifier or among brackets that cross. -/
inductive Misjudged (done : List Lexeme) : List Lexeme → Prop where
  | labelled {label colon : Lexeme} {block : List Lexeme} (name : label.category = .identifier)
    (separates : colon.category = .colon) (isBlock : IsBlock block) :
    Misjudged done (label :: colon :: block)
  | named {front : List Lexeme} {name : Lexeme} {block : List Lexeme} (word : name.isWord = true)
    (role : name.category ∈ [.declarator, .binaryOperator, .unaryOperator])
    (isBlock : IsBlock block) : Misjudged done (front ++ name :: block)
  | bare {block : List Lexeme} (isBlock : IsBlock block) (behind : ¬ OpensBlock done) :
    Misjudged done block
  | modified {statement : List Lexeme} (modified : Modified statement)
    (operand : ¬ OpensBlock (done ++ statement)) : Misjudged done statement
  | crossed {statement : List Lexeme} (crossed : ¬ Nested statement)
    (operand : ¬ OpensBlock (done ++ statement)) : Misjudged done statement

/-! ## What introduces a block -/

theorem Category.ofWord_opensBlock (word : String) :
    braceOpensBlock (some (ofWord word)) false = true ∨
      ofWord word ∈ [.declarator, .binaryOperator, .unaryOperator] := by
  simp only [ofWord]
  repeat' split
  all_goals first | exact .inl rfl | exact .inr (by decide)

/-- What introduces a block makes the scanner open one, unless it is a word with the role of a
declarator or an operator. -/
theorem Lexeme.Introduces.opensBlock {lexeme : Lexeme} {previous : Option Category}
    (introduces : lexeme.Introduces) (classified : lexeme = lexeme.token.classify previous) :
    lexeme.category ≠ .rightBrace ∧ (braceOpensBlock (some lexeme.category) false = true ∨
      lexeme.isWord = true ∧
        lexeme.category ∈ [.declarator, .binaryOperator, .unaryOperator]) := by
  cases introduces with
  | role role =>
    simp only [List.mem_cons, List.not_mem_nil, or_false] at role
    rcases role with role | role | role | role <;> rw [role] <;>
      exact ⟨by decide, .inl rfl⟩
  | version number =>
    have role : lexeme.category = .literal := by
      rw [classified]
      simp [Token.classify, Token.categoryAfter, Token.category, number]
    rw [role]
    exact ⟨by decide, .inl rfl⟩
  | word word =>
    have kind : lexeme.token.kind = .identifier := of_decide_eq_true word
    have plain := (Token.categoryAfter_plain (.inl kind) previous).2
    have role : lexeme.category = lexeme.token.categoryAfter previous :=
      congrArg Lexeme.category classified
    rw [← role] at plain
    constructor
    · intro same
      rw [same] at plain
      contradiction
    · rcases Token.categoryAfter_word kind previous with name | listed
      · rw [role, name]
        exact .inl rfl
      · rw [role, listed]
        exact (Category.ofWord_opensBlock _).imp_right fun named => ⟨word, named⟩

namespace Context

variable {context : Context} {front block : List Lexeme}

theorem Reads.behind_bare (reads : start.Reads (front ++ block)) (isBlock : IsBlock block) :
    (start.after ((front ++ block).map Lexeme.token)).afterOperand = true ↔ ¬ OpensBlock front := by
  rw [(reads.behind_block isBlock).2, Bool.not_eq_true', ← Bool.not_eq_true, not_iff_not]
  exact ⟨reads.split.1.opensBlock_of_stack, fun opens => stack_of_opensBlock opens reads.split.1⟩

variable {done statement : List Lexeme} {closer : Lexeme}

/-- Whether a closing brace ends an operand, by what it closes. -/
theorem Reads.operand_iff (reads : start.Reads (done ++ (statement ++ [closer])))
    (closes : closer.category = .rightBrace) :
    (start.after ((done ++ (statement ++ [closer])).map Lexeme.token)).afterOperand = true ↔
      ¬ OpensBlock (done ++ (statement ++ [closer])) := by
  rw [← List.append_assoc] at reads ⊢
  rw [← reads.afterOperand_iff closes, Bool.not_eq_false]

/-- A misjudged brace ends an operand. -/
theorem Reads.operand_of_misjudged (reads : start.Reads (done ++ (statement ++ [closer])))
    (closes : closer.category = .rightBrace)
    (misjudged : Misjudged done (statement ++ [closer])) :
    (start.after ((done ++ (statement ++ [closer])).map Lexeme.token)).afterOperand = true := by
  have decides := reads.operand_iff closes
  generalize statement ++ [closer] = whole at reads misjudged decides ⊢
  cases misjudged with
  | @labelled label colon block name separates isBlock =>
    have same : done ++ label :: colon :: block = (done ++ [label]) ++ colon :: block := by
      rw [List.append_assoc, List.singleton_append]
    rw [same] at reads ⊢
    rw [(reads.behind_introduced isBlock (by rw [separates]; decide)).2, separates]
    rfl
  | @named front name block word role isBlock =>
    rw [← List.append_assoc] at reads ⊢
    simp only [List.mem_cons, List.not_mem_nil, or_false] at role
    rcases role with role | role | role <;>
      rw [(reads.behind_introduced isBlock (by rw [role]; decide)).2, role] <;> rfl
  | bare isBlock behind => exact (reads.behind_bare isBlock).mpr behind
  | modified _ operand => exact decides.mpr operand
  | crossed _ operand => exact decides.mpr operand

/-- A brace that completes a statement without faults and ends an operand is misjudged. -/
theorem Reads.misjudged_of_operand {rest : List Lexeme}
    (reads : start.Reads (done ++ (statement ++ [closer])))
    (closes : closer.category = .rightBrace)
    (completed : Boundary.start.Completes (statement ++ [closer]) rest)
    (sound : ∀ node, parseStatement (statement ++ [closer]) = some node → node.faults = [])
    (operand :
      (start.after ((done ++ (statement ++ [closer])).map Lexeme.token)).afterOperand = true) :
    Misjudged done (statement ++ [closer]) := by
  have decides := (reads.operand_iff closes).mp operand
  have ends : (statement ++ [closer]).getLast? = some closer := List.getLast?_concat
  have classified := fun lexeme member => reads.split.2.classified lexeme member
  generalize statement ++ [closer] = whole at *
  by_cases nested : Nested whole
  · -- Without a modifier the brace closes the block that the head of the statement bears.
    by_cases modified : Modified whole
    · exact .modified modified decides
    · have unterminated : Unterminated whole := by
        intro last same
        rw [ends] at same
        rw [← Option.some.inj same, closes]
        decide
      have names : ∀ lexeme ∈ whole, lexeme.category = .identifier → lexeme.isWord = true := by
        intro lexeme member name
        obtain ⟨previous, same⟩ := classified lexeme member
        exact Lexeme.isWord_of_name same name
      rcases shape_of_completed nested names completed unterminated modified sound with
        isBlock | ⟨_, same, front, intro, block, rfl, introduces, isBlock⟩ | ⟨taken, same, leads⟩
      · rcases unlabelled_cases whole with same | ⟨label, colon, same, name, separates⟩
        · rw [same] at isBlock
          exact .bare isBlock ((reads.behind_bare isBlock).mp operand)
        · rw [same]
          exact .labelled name separates isBlock
      · rw [List.append_nil] at same
        obtain ⟨before, rfl⟩ : ∃ before, whole = before ++ intro :: block := by
          rcases unlabelled_cases whole with same' | ⟨label, colon, same', -⟩
          · exact ⟨front, same'.symm.trans same⟩
          · exact ⟨label :: colon :: front, by rw [same', same]; rfl⟩
        obtain ⟨previous, role⟩ := classified intro (by simp)
        obtain ⟨noCloser, opens | ⟨word, listed⟩⟩ := introduces.opensBlock role
        · rw [← List.append_assoc] at reads operand
          rw [(reads.behind_introduced isBlock noCloser).2, opens] at operand
          contradiction
        · exact .named word listed isBlock
      · rw [List.append_nil] at same
        have last := getLast?_unlabelled ends (by rw [closes]; decide)
        rw [same] at last
        obtain ⟨previous, role⟩ := classified closer (List.mem_of_getLast? ends)
        exact absurd closes ((leads closer last).opensBlock role).1
  · exact .crossed nested decides

end Context

/-- Strict reading refuses a program with a fault in a tree. -/
theorem sound_of_parseStrict {text : List Char} {nodes : List Node}
    (accepted : parseStrict text = .ok nodes) :
    ∃ tokens : List Token, scan text = tokens.map .ok ∧
      nodes = parseItems ((Context.start.lexemes tokens).map .ok) ∧
        ∀ node ∈ nodes, node.faults = [] := by
  simp only [parseStrict] at accepted
  split at accepted
  · contradiction
  · next tokens tokenized =>
    split at accepted
    · contradiction
    · next sound =>
      obtain rfl := Except.ok.inj accepted
      refine ⟨tokens, scan_of_tokenize tokenized, by rw [classifyAll_ok], fun node member => ?_⟩
      have none := List.findSome?_eq_none_iff.mp sound node member
      exact List.head?_eq_none_iff.mp none

/-- In a program that is accepted, the brace that completes a statement ends an operand exactly
where the scanner misjudges it, and elsewhere what stands behind it begins an operand. -/
theorem afterOperand_iff_misjudged {text : List Char} {nodes : List Node}
    (accepted : parseStrict text = .ok nodes) {done statement rest : List Lexeme} {closer : Lexeme}
    (divided : lexemesOf (classifyAll (scan text)) = done ++ (statement ++ [closer] ++ rest))
    (restarted : Statements done (statement ++ [closer] ++ rest))
    (completed : Boundary.start.Completes (statement ++ [closer]) rest)
    (closes : closer.category = .rightBrace) :
    ∃ final : Scanner,
      (scanTrace text)[(done ++ statement).length]? = some (some (.ok closer.token), final) ∧
      (final.context.afterOperand = true ↔ Misjudged done (statement ++ [closer])) ∧
      (final.context.BeginsOperand ↔ ¬ Misjudged done (statement ++ [closer])) := by
  obtain ⟨tokens, scanned, rfl, sound⟩ := sound_of_parseStrict accepted
  rw [scanned, classifyAll_ok, lexemesOf_ok] at divided
  have spelled : tokens = (done ++ statement).map Lexeme.token ++
      closer.token :: rest.map Lexeme.token := by
    rw [← Context.start.map_token_lexemes tokens, divided]
    simp only [List.map_append, List.map_cons, List.append_assoc, List.cons_append,
      List.nil_append]
  have reads : Context.start.Reads (done ++ (statement ++ [closer])) := by
    have whole : Context.start.Reads (done ++ (statement ++ [closer]) ++ rest) := by
      rw [List.append_assoc, ← divided, Context.Reads, Context.map_token_lexemes]
    exact whole.split.1
  have sound' : ∀ node, parseStatement (statement ++ [closer]) = some node → node.faults = [] := by
    intro node read
    apply sound node
    rw [parseItems_ok, divided]
    exact List.mem_filterMap.mpr ⟨_, restarted.mem_splitStatements completed, read⟩
  have answered : ((Scanner.start text).trace (text.length + 1)).filterMap Prod.fst =
      ((done ++ statement).map Lexeme.token ++ closer.token :: rest.map Lexeme.token).map .ok := by
    rw [← spelled]
    exact scanned
  obtain ⟨final, found, context⟩ := Scanner.trace_getElem? answered
  have behind : final.context =
      Context.start.after ((done ++ (statement ++ [closer])).map Lexeme.token) := by
    rw [context]
    simp only [List.map_append, List.map_cons, List.map_nil, List.append_assoc]
    rfl
  have decides : final.context.afterOperand = true ↔ Misjudged done (statement ++ [closer]) := by
    rw [behind]
    exact ⟨reads.misjudged_of_operand closes completed sound',
      reads.operand_of_misjudged closes⟩
  refine ⟨final, ?_, decides, ?_⟩
  · rwa [List.length_map] at found
  · rw [Context.beginsOperand_iff, ← decides, Bool.not_eq_true]

/-- The brace of a block with a label ends an operand, between two other statements. -/
theorem afterOperand_iff_misjudged_label :
    ∃ final : Scanner, (scanTrace "1;L:\x7b2\x7d3;".toList)[6]? =
        some (some (.ok ⟨.closeBrace, "\x7d", ⟨1, 7⟩⟩), final) ∧
      final.context.afterOperand = true ∧ ¬ final.context.BeginsOperand := by
  have accepted : parseStrict "1;L:\x7b2\x7d3;".toList =
      .ok [.number "1", .block (some "L") [.number "2"], .number "3"] := by
    with_unfolding_all rfl
  have divided : lexemesOf (classifyAll (scan "1;L:\x7b2\x7d3;".toList)) =
      ([⟨⟨.number, "1", ⟨1, 1⟩⟩, .literal⟩, ⟨⟨.semicolon, ";", ⟨1, 2⟩⟩, .terminator⟩] ++ []) ++
        ([⟨⟨.identifier, "L", ⟨1, 3⟩⟩, .identifier⟩, ⟨⟨.colon, ":", ⟨1, 4⟩⟩, .colon⟩,
          ⟨⟨.openBrace, "\x7b", ⟨1, 5⟩⟩, .leftBrace⟩, ⟨⟨.number, "2", ⟨1, 6⟩⟩, .literal⟩] ++
          [⟨⟨.closeBrace, "\x7d", ⟨1, 7⟩⟩, .rightBrace⟩] ++
          [⟨⟨.number, "3", ⟨1, 8⟩⟩, .literal⟩, ⟨⟨.semicolon, ";", ⟨1, 9⟩⟩, .terminator⟩]) := by
    rfl
  obtain ⟨final, found, decides, begins⟩ := afterOperand_iff_misjudged accepted divided
    (.cons (.take rfl (.last _ rfl)) (.nil _))
    (.take rfl (.take rfl (.take rfl (.take rfl (.last _ rfl))))) rfl
  have matched : Braced 0 [⟨⟨.number, "2", ⟨1, 6⟩⟩, .literal⟩] :=
    .plain (by decide) (by decide) .nil
  have operand : final.context.afterOperand = true :=
    decides.mpr (.labelled rfl rfl (.braces rfl rfl matched))
  exact ⟨final, found, operand, fun fresh => begins.mp fresh (decides.mp operand)⟩

end SigilScript
