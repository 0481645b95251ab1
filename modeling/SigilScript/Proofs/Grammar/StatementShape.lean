import SigilScript.Proofs.Grammar.Shape

/-! # The shape of completed statements

Behind its label a statement that is read without a fault, and that a closing brace completes, is
a block or ends in one that something introduces, unless a modifier stands in it. A second label
is read as an expression, which a name with a colon behind it is not.
-/

namespace SigilScript

theorem Node.faults_labelled (node : Node) (label : String) :
    (node.labelled label).faults = node.faults := by
  cases node <;> rfl

namespace Grammar

variable {head : Lexeme} {rest : List Lexeme} {node : Node}

/-- A name with a colon behind it is no expression. -/
theorem readWhole_label {colon : Lexeme} (word : head.isWord = true)
    (name : head.category = .identifier) (separates : colon.category = .colon) (anchor : Position) :
    (full.readWhole anchor (head :: colon :: rest)).faults ≠ [] := by
  have kind : head.token.kind = .identifier := of_decide_eq_true word
  obtain ⟨primary, read⟩ : ∃ primary : Node,
      full.readPrimary head (colon :: rest) = (primary, colon :: rest) := by
    simp only [readPrimary, kind, name, readWord, nextIs, List.head?_cons, Option.any_some,
      separates, reduceCtorEq, decide_false, Bool.false_eq_true, Bool.or_false, ↓reduceIte]
    split
    · exact ⟨_, rfl⟩
    · exact ⟨_, rfl⟩
  simp only [readWhole, readOperation, readOperand, readAtom, name, read, readChain, separates,
    readClimb, nextIs, List.head?_cons, Option.any_some, reduceCtorEq, decide_false,
    Bool.false_eq_true, ↓reduceIte, Node.finish]
  exact List.cons_ne_nil _ _

/-- A statement without label and modifier that begins with what bears a block. -/
theorem readSimple_sound (nested : Nested (head :: rest)) (bears : BearsBlock head rest)
    (sound : (full.readSimple head rest).faults = []) :
    IsBlock (head :: rest) ∨ ClosesOrLeads (head :: rest) [] := by
  simp only [readSimple] at sound
  split at sound
  · next role =>
    obtain ⟨front, intro, block, same, introduces, isBlock⟩ := readControl_sound role sound
    exact .inr (.inl ⟨head :: rest, (List.append_nil _).symm, front, intro, block, same,
      introduces, isBlock⟩)
  · next role => exact .inr (readReserved_sound nested role bears sound)
  · next role =>
    rcases block : full.readBlock (lastPosition head rest) (head :: rest) with ⟨body, after⟩
    rw [block] at sound
    obtain ⟨node, read, sound⟩ := finish_sound sound
    obtain ⟨rfl, rfl⟩ := Prod.mk.inj read
    obtain ⟨block, same, isBlock⟩ := readBlock_sound block sound
    rw [List.append_nil] at same
    rw [same]
    exact .inl isBlock
  · next role =>
    split at sound
    · obtain ⟨node, read, sound⟩ := finish_sound sound
      simp only [readPhaseBlock] at read
      rcases block : full.readBlock (lastPosition head rest) rest with ⟨body, after⟩
      rw [block] at read
      obtain ⟨rfl, rfl⟩ := Prod.mk.inj read
      exact .inr (.inl (closes_of_block (.role (by rw [role]; decide)) block sound))
    · next noPhase =>
      cases bears with
      | phase _ spelled block =>
        rw [Bool.and_eq_true] at noPhase
        exact absurd ⟨spelled, block⟩ noPhase
      | _ => simp_all
  · next role => cases bears <;> simp_all
  · cases bears <;> simp_all

/-- A second label is an expression that is not one. -/
theorem readSimple_label {colon : Lexeme} (word : head.isWord = true)
    (name : head.category = .identifier) (separates : colon.category = .colon) :
    (full.readSimple head (colon :: rest)).faults ≠ [] := by
  have noBlock : nextIs .leftBrace (colon :: rest) = false := by
    simp [nextIs, separates]
  simp only [readSimple, name, noBlock, Bool.and_false, Bool.false_eq_true, ↓reduceIte]
  exact readWhole_label word name separates head.position

/-- Without a modifier a statement is what its first lexeme says. -/
theorem readModified_plain (plain : ∀ first before keyword after,
      cutAtTopLevel? Lexeme.isModifier 0 (head :: rest) ≠ some ⟨first :: before, keyword, after⟩) :
    full.readModified head rest = full.readSimple head rest := by
  simp only [readModified]
  split
  · rfl
  · rcases found : cutAtTopLevel? Lexeme.isModifier 0 (head :: rest) with
      _ | ⟨_ | ⟨first, before⟩, keyword, after⟩
    · rfl
    · rfl
    · exact absurd found (plain first before keyword after)

theorem withoutTerminator_of_unterminated {statement : List Lexeme}
    (unterminated : Unterminated statement) : withoutTerminator statement = statement := by
  simp only [withoutTerminator]
  rcases ends : statement.getLast? with _ | last
  · rfl
  · simp [unterminated last ends]

/-- A statement is read behind its label, unless the label is all there is. -/
theorem readStatement_cases {statement : List Lexeme} (nonempty : statement ≠ [])
    (unterminated : Unterminated statement) :
    ∃ node : Node, full.readStatement statement = some node ∧
      ((∃ anchor, node = .expected .labelledStatement none anchor) ∨
        ∃ (head : Lexeme) (rest : List Lexeme), unlabelled statement = head :: rest ∧
          (node = full.readModified head rest ∨
            ∃ label, node = (full.readModified head rest).labelled label)) := by
  simp only [readStatement, withoutTerminator_of_unterminated unterminated]
  split
  · contradiction
  · next head => exact ⟨_, rfl, .inr ⟨head, [], rfl, .inl rfl⟩⟩
  · next head colon rest =>
    simp only [unlabelled]
    split
    · split
      · exact ⟨_, rfl, .inl ⟨_, rfl⟩⟩
      · next first rest => exact ⟨_, rfl, .inr ⟨first, rest, rfl, .inr ⟨_, rfl⟩⟩⟩
    · exact ⟨_, rfl, .inr ⟨head, colon :: rest, rfl, .inl rfl⟩⟩

theorem readStatement_unlabelled {statement : List Lexeme} (nonempty : statement ≠ [])
    (unterminated : Unterminated statement)
    (sound : ∀ node, full.readStatement statement = some node → node.faults = []) :
    ∃ (head : Lexeme) (rest : List Lexeme), unlabelled statement = head :: rest ∧
      (full.readModified head rest).faults = [] := by
  obtain ⟨node, read, ⟨anchor, rfl⟩ | ⟨head, rest, same, rfl | ⟨label, rfl⟩⟩⟩ :=
    readStatement_cases nonempty unterminated
  · exact absurd (sound _ read) (List.cons_ne_nil _ _)
  · exact ⟨head, rest, same, sound _ read⟩
  · exact ⟨head, rest, same, (Node.faults_labelled _ label).symm.trans (sound _ read)⟩

end Grammar

/-- Whether a modifier stands in a statement, behind its label and not first. -/
def Modified (statement : List Lexeme) : Prop :=
  ∃ (first : Lexeme) (before : List Lexeme) (keyword : Lexeme) (after : List Lexeme),
    cutAtTopLevel? Lexeme.isModifier 0 (unlabelled statement) =
      some ⟨first :: before, keyword, after⟩

theorem Nested.behind_plain {lexeme : Lexeme} {rest : List Lexeme}
    (nested : Nested (lexeme :: rest)) (opens : lexeme.category.isOpener = false) :
    Nested rest := by
  cases nested with
  | plain _ _ nested => exact nested
  | group partner _ _ =>
    rw [Category.isOpener_of_closer? partner] at opens
    contradiction

theorem unlabelled_of_bears {head : Lexeme} {rest : List Lexeme} (bears : BearsBlock head rest) :
    unlabelled (head :: rest) = head :: rest := by
  rcases rest with _ | ⟨colon, rest⟩
  · rfl
  · simp only [unlabelled]
    split
    · next label => cases bears <;> simp_all [nextIs]
    · rfl

theorem unlabelled_cases (statement : List Lexeme) :
    unlabelled statement = statement ∨ ∃ label colon : Lexeme,
      statement = label :: colon :: unlabelled statement ∧ label.category = .identifier ∧
        colon.category = .colon := by
  rcases statement with _ | ⟨label, _ | ⟨colon, rest⟩⟩
  · exact .inl rfl
  · exact .inl rfl
  · simp only [unlabelled]
    split
    · next labelled => exact .inr ⟨label, colon, rfl, labelled.1, labelled.2⟩
    · exact .inl rfl

theorem getLast?_unlabelled {statement : List Lexeme} {last : Lexeme}
    (ends : statement.getLast? = some last) (noColon : last.category ≠ .colon) :
    (unlabelled statement).getLast? = some last := by
  rcases unlabelled_cases statement with same | ⟨label, colon, same, -, separates⟩
  · rwa [same]
  · rw [same, List.getLast?_cons_cons, List.getLast?_cons] at ends
    rcases behind : (unlabelled statement).getLast? with _ | last'
    · rw [behind] at ends
      obtain rfl := Option.some.inj ends
      exact absurd separates noColon
    · rw [behind] at ends
      exact ends

/-- A statement that no terminator ends is a block behind its label, or ends in a block that
something introduces, or in what could introduce one. -/
theorem shape_of_completed {statement rest : List Lexeme} (nested : Nested statement)
    (names : ∀ lexeme ∈ statement, lexeme.category = .identifier → lexeme.isWord = true)
    (completed : Boundary.start.Completes statement rest) (unterminated : Unterminated statement)
    (unmodified : ¬ Modified statement)
    (sound : ∀ node, parseStatement statement = some node → node.faults = []) :
    IsBlock (unlabelled statement) ∨ Grammar.ClosesOrLeads (unlabelled statement) [] := by
  rw [parseStatement_eq] at sound
  obtain ⟨head, tail, same, simple⟩ :=
    Grammar.readStatement_unlabelled completed.nonempty unterminated sound
  rw [Grammar.readModified_plain fun first before keyword after found =>
    unmodified ⟨first, before, keyword, after, by rw [same, found]⟩] at simple
  rw [same]
  obtain ⟨first, more, rfl⟩ := List.exists_cons_of_ne_nil completed.nonempty
  rcases completed.bears nested.level unterminated with
    bears | ⟨name, colon, behind, rfl, separates, completed'⟩
  · rw [unlabelled_of_bears bears] at same
    obtain ⟨rfl, rfl⟩ := List.cons.inj same
    exact Grammar.readSimple_sound nested bears simple
  · have labelled : unlabelled (first :: colon :: behind) = behind := if_pos ⟨name, separates⟩
    rw [labelled] at same
    obtain rfl := same
    have nested' : Nested (head :: tail) :=
      (nested.behind_plain (by rw [name]; rfl)).behind_plain (by rw [separates]; rfl)
    -- The boundary takes any number of labels, the grammar one.
    rcases completed'.bears nested'.level unterminated.tail.tail with
      bears | ⟨name', colon', behind, rfl, separates', -⟩
    · exact Grammar.readSimple_sound nested' bears simple
    · exact absurd simple (Grammar.readSimple_label (names head (by simp) name') name' separates')

end SigilScript
