import SigilScript.Proofs.Loops

/-! # Modifiers

A keyword behind a statement makes it conditional or repeats it, and so does the same keyword in
front of a block that holds the statement. The two are found in different ways, the one by a search
of the statement and the other by the head of the block form, and they are read as one tree.
-/

namespace SigilScript

/-- The keywords that can stand behind a statement. -/
theorem Lexeme.text_of_isModifier {keyword : Lexeme} (modifies : keyword.isModifier = true) :
    keyword.text = "if" ∨ keyword.text = "unless" ∨ keyword.text = "while" ∨
      keyword.text = "until" ∨ keyword.text = "for" ∨ keyword.text = "foreach" := by
  simpa [isModifier] using (Bool.and_eq_true_iff.mp modifies).2

/-! ## Behind a statement -/

/-- A statement that bears no label does not begin with a name and a colon. -/
theorem noLabel_of_unlabelled {head second : Lexeme} {tail : List Lexeme}
    (plain : unlabelled (head :: second :: tail) = head :: second :: tail) :
    ¬ (head.category = .identifier ∧ second.category = .colon) := by
  intro label
  simp only [unlabelled, label, and_self, ↓reduceIte] at plain
  have shorter := congrArg List.length plain
  simp only [List.length_cons] at shorter
  omega

/-- No label comes about by what stands behind a statement. -/
theorem unlabelled_append {statement : List Lexeme} {next : Lexeme} (behind : List Lexeme)
    (nonempty : statement ≠ []) (plain : unlabelled statement = statement)
    (noColon : next.category ≠ .colon) :
    unlabelled (statement ++ next :: behind) = statement ++ next :: behind := by
  rcases statement with _ | ⟨head, _ | ⟨second, tail⟩⟩
  · contradiction
  · exact if_neg fun label => noColon label.2
  · exact if_neg (noLabel_of_unlabelled plain)

/-- Whether a lexeme of this role neither groups nor ends a statement and is no keyword in it. -/
def Category.isPlain (category : Category) : Bool :=
  !category.isOpener && !category.isCloser && category ≠ .terminator &&
    category ≠ .controlKeyword

namespace Grammar

variable {head keyword stop : Lexeme} {tail condition : List Lexeme}

/-- A statement that bears no label is read without its terminator. -/
theorem readStatement_terminated (ends : stop.category = .terminator)
    (unlabelled : unlabelled (head :: tail) = head :: tail) :
    full.readStatement (head :: tail ++ [stop]) = some (full.readModified head tail) := by
  simp only [readStatement, withoutTerminator_concat ends]
  rcases tail with _ | ⟨second, tail⟩
  · rfl
  · simp only [noLabel_of_unlabelled unlabelled, ↓reduceIte]

/-- A statement with a keyword behind it is what the keyword makes of the statement. -/
theorem readModified_modifier (nested : Nested (head :: tail))
    (plain : head.category ≠ .controlKeyword)
    (unmodified : cutAtTopLevel? Lexeme.isModifier 0 (head :: tail) = none)
    (modifies : keyword.isModifier = true) (nonempty : condition ≠ []) :
    full.readModified head (tail ++ keyword :: condition) =
      modified keyword.text (parseExpression keyword.position condition)
        [full.readSimple head tail] := by
  have found : cutAtTopLevel? Lexeme.isModifier 0 (head :: (tail ++ keyword :: condition)) =
      some ⟨head :: tail, keyword, condition⟩ := by
    rw [← List.cons_append, cutAtTopLevel?_behind _ nested unmodified]
    simp [cutAtTopLevel?, modifies, Cut.pushAll]
  have given : condition.isEmpty = false := List.isEmpty_eq_false_iff.mpr nonempty
  simp only [readModified, plain, ↓reduceIte, found, given, Bool.false_eq_true,
    parseExpression_eq]

/-- A statement that holds no modifier is told by its first lexeme. -/
theorem readModified_unmodified
    (unmodified : cutAtTopLevel? Lexeme.isModifier 0 (head :: tail) = none) :
    full.readModified head tail = full.readSimple head tail :=
  readModified_plain fun first before keyword after found => by simp [unmodified] at found

/-- A statement that bears no block is read up to its terminator. -/
theorem parse_simple (simple : head.head = .simple)
    (plain : head.category.delta = 0 ∧ head.category ≠ .terminator)
    (ends : stop.category = .terminator) (level : Level 0 tail)
    (outside : hasTopLevel tail .terminator = false) :
    (splitStatements (head :: tail ++ [stop])).filterMap parseStatement =
      [full.readModified head tail] := by
  have begins : Boundary.start.offer head = (.take, ⟨.simple, 0, false, false⟩) := by
    rw [Boundary.offer_resumed rfl]
    simp only [Boundary.accept, Boundary.start, simple, Boundary.settle, plain.1, Int.add_zero,
      Int.lt_irrefl, ↓reduceIte]
    split
    · next ends => exact absurd ends plain.2
    · contradiction
    · contradiction
    · rfl
  obtain ⟨further, takes, resumed⟩ := Boundary.takes_simple
    (show (⟨.simple, 0, false, false⟩ : Boundary).head = .simple from rfl) rfl
    (show _ = ((0 : Nat) : Int) from rfl) level
    (Option.isNone_iff_eq_none.mp (Option.isSome_eq_false_iff.mp outside)) ends
  have unnamed : head.category ≠ .identifier := by
    intro name
    rw [Lexeme.head, name] at simple
    contradiction
  have unlabelled : unlabelled (head :: tail) = head :: tail := by
    cases tail with
    | nil => rfl
    | cons second tail => exact if_neg fun label => unnamed label.1
  rw [Boundary.Takes.splitStatements (.cons begins takes) resumed stop, List.filterMap_cons,
    parseStatement_eq, readStatement_terminated ends unlabelled, List.filterMap_nil]

/-- A statement that begins with a variable and holds no modifier is one expression. -/
theorem parse_variable (role : head.category = .var) (ends : stop.category = .terminator)
    (level : Level 0 tail) (outside : hasTopLevel tail .terminator = false)
    (unmodified : cutAtTopLevel? Lexeme.isModifier 0 (head :: tail) = none) :
    (splitStatements (head :: tail ++ [stop])).filterMap parseStatement =
      [parseExpression head.position (head :: tail)] := by
  have simple : head.head = .simple := by rw [Lexeme.head, role]
  rw [parse_simple simple (by rw [role]; decide) ends level outside,
    readModified_unmodified unmodified, readSimple, role, parseExpression_eq]

/-- A variable with nothing behind it that groups lexemes, ends a statement or modifies it. -/
theorem parse_variable_plain (role : head.category = .var) (ends : stop.category = .terminator)
    (plain : ∀ lexeme ∈ tail, lexeme.category.isPlain = true) :
    (splitStatements (head :: tail ++ [stop])).filterMap parseStatement =
      [parseExpression head.position (head :: tail)] := by
  simp only [Category.isPlain, Bool.and_eq_true, Bool.not_eq_true', decide_eq_true_eq] at plain
  have nested : Nested tail := .flat fun lexeme member => (plain lexeme member).1.1
  have outside : hasTopLevel tail .terminator = false := by
    rw [hasTopLevel, cutAtTopLevel?_eq_none, Option.isSome_none]
    intro lexeme member
    exact decide_eq_false (plain lexeme member).1.2
  have unmodified : ∀ lexeme ∈ head :: tail, lexeme.isModifier = false := by
    simp only [List.forall_mem_cons]
    refine ⟨by simp [Lexeme.isModifier, role], fun lexeme member => ?_⟩
    simp [Lexeme.isModifier, (plain lexeme member).2]
  exact parse_variable role ends nested.level outside (cutAtTopLevel?_eq_none unmodified 0)

/-- A variable with one group behind it. -/
theorem parse_variable_group {opener closer : Lexeme} {inner : List Lexeme}
    (role : head.category = .var) (ends : stop.category = .terminator)
    (partner : opener.category.closer? = some closer.category) (nested : Nested inner) :
    (splitStatements (head :: opener :: (inner ++ [closer]) ++ [stop])).filterMap parseStatement =
      [parseExpression head.position (head :: opener :: (inner ++ [closer]))] := by
  have opens := Category.isOpener_of_closer? partner
  have other {category : Category} (plain : category.isOpener = false) :
      opener.category ≠ category := by
    rintro same
    rw [same, plain] at opens
    contradiction
  have outside : hasTopLevel (opener :: (inner ++ [closer])) .terminator = false := by
    rw [hasTopLevel, cutAtTopLevel?_group _ partner (decide_eq_false (other rfl)) nested]
    rfl
  have unmodified : cutAtTopLevel? Lexeme.isModifier 0
      (head :: opener :: (inner ++ [closer])) = none := by
    have alone : Nested [head] := .plain (by rw [role]; rfl) (by rw [role]; rfl) .nil
    have plain : cutAtTopLevel? Lexeme.isModifier 0 [head] = none :=
      cutAtTopLevel?_eq_none (by simp [Lexeme.isModifier, role]) 0
    have before := cutAtTopLevel?_behind Lexeme.isModifier alone plain (opener :: (inner ++ [closer]))
    have unwanted : opener.isModifier = false := by
      rw [Lexeme.isModifier, decide_eq_false (other rfl), Bool.false_and]
    rw [cutAtTopLevel?_group _ partner unwanted nested] at before
    exact before
  exact parse_variable role ends (Nested.single partner nested).level outside unmodified

end Grammar

/-! ## In front of a block -/

/-- The block form of a modifier is what its keyword makes of the statements of its block. -/
theorem parseItems_blockForm {spelling : String} (form : Guarded .controlKeyword spelling)
    (modifies : form.keyword.isModifier = true)
    (flat : hasTopLevel form.condition.inside .terminator = false) :
    parseItems (form.lexemes.map .ok) =
      [Grammar.modified spelling form.expression form.body] := by
  have parsed {node : Node} (read : parseStatement form.lexemes = some node)
      (split : splitStatements (form.lexemes ++ []) = form.lexemes :: splitStatements []) :
      parseItems (form.lexemes.map .ok) = [node] := by
    rw [List.append_nil] at split
    rw [parseItems_ok, split, List.filterMap_cons_some read, splitStatements, List.filterMap_nil]
  have compound (compound : Compound) (same : compound.lexemes = form.lexemes) :
      parseItems (form.lexemes.map .ok) = [compound.node] := by
    have split : splitStatements (compound.lexemes ++ []) =
        compound.lexemes :: splitStatements [] := compound.splitStatements (by simp)
    exact parsed (same ▸ compound.parseStatement) (same ▸ split)
  have loop (begins : form.keyword.BeginsLoop) :
      parseItems (form.lexemes.map .ok) =
        [.foreachLoop none none none form.expression form.body] := by
    let repeated : Loop := ⟨form.keyword, begins, form.condition.toGroup, form.block⟩
    have divided : Clauses repeated.header.inside [form.condition.inside] :=
      .single form.condition.nested flat
    have node : repeated.node [form.condition.inside] =
        .foreachLoop none none none form.expression form.body := by
      obtain ⟨first, rest, inside⟩ := List.exists_cons_of_ne_nil form.condition.nonempty
      rw [Guarded.expression, parseExpression_eq, Loop.node, parseExpression_eq, inside]
      rfl
    rw [← node]
    exact parsed (repeated.parseStatement divided) (repeated.splitStatements [])
  have texts := Lexeme.text_of_isModifier modifies
  rw [form.text] at texts
  rcases texts with rfl | rfl | rfl | rfl | rfl | rfl
  · exact compound (.conditional .affirmed ⟨form, [], none⟩) (List.append_nil _)
  · exact compound (.conditional .negated ⟨form, [], none⟩) (List.append_nil _)
  · exact compound (.loop .affirmed form) rfl
  · exact compound (.loop .negated form) rfl
  · exact loop ⟨form.role, .inl form.text⟩
  · exact loop ⟨form.role, .inr form.text⟩

/-- A statement with a modifier behind it is parsed as the block form of the modifier: as one tree,
the faults in the statement and in the condition among its parts. -/
theorem parseItems_modifier {spelling : String} {keyword stop stop' : Lexeme}
    {statement : List Lexeme} (form : Guarded .controlKeyword spelling)
    (modifies : keyword.isModifier = true) (same : keyword.text = spelling)
    (ends : stop.category = .terminator) (ends' : stop'.category = .terminator)
    (body : form.block.inside = statement ++ [stop'])
    (flat : hasTopLevel form.condition.inside .terminator = false)
    (nested : Nested statement) (nonempty : statement ≠ [])
    (unmodified : cutAtTopLevel? Lexeme.isModifier 0 statement = none)
    (plain : ∀ head ∈ statement.head?, head.category ≠ .controlKeyword)
    (unlabelled : unlabelled statement = statement)
    (one : splitStatements (statement ++ keyword :: (form.condition.inside ++ [stop])) =
      [statement ++ keyword :: (form.condition.inside ++ [stop])])
    (one' : splitStatements (statement ++ [stop']) = [statement ++ [stop']]) :
    ∃ node : Node,
      parseItems ((statement ++ keyword :: (form.condition.inside ++ [stop])).map .ok) = [node] ∧
        parseItems (form.lexemes.map .ok) = [node] := by
  obtain ⟨head, tail, rfl⟩ := List.exists_cons_of_ne_nil nonempty
  have plain := plain head rfl
  have role : keyword.category = .controlKeyword := by
    simpa using (Bool.and_eq_true_iff.mp modifies).1
  have modifies' : form.keyword.isModifier = true := by
    rw [Lexeme.isModifier, form.role, form.text, ← same]
    exact (Bool.and_eq_true_iff.mp modifies).2
  -- The block holds the statement alone, which is told by its first lexeme.
  have block : form.body = [Grammar.full.readSimple head tail] := by
    have read := Grammar.readStatement_terminated ends' unlabelled
    rw [Grammar.readModified_unmodified unmodified, ← parseStatement_eq] at read
    rw [Guarded.body, body, parseItems_ok, one', List.filterMap_cons_some read,
      List.filterMap_nil]
  have expression : parseExpression keyword.position form.condition.inside = form.expression := by
    rw [Guarded.expression, parseExpression_eq, parseExpression_eq]
    obtain ⟨first, rest, same⟩ := List.exists_cons_of_ne_nil form.condition.nonempty
    rw [same]
    rfl
  refine ⟨_, ?_, parseItems_blockForm form modifies' flat⟩
  have noColon : keyword.category ≠ .colon := by simp [role]
  have read : Grammar.full.readStatement
      (head :: (tail ++ keyword :: form.condition.inside) ++ [stop]) = _ :=
    Grammar.readStatement_terminated ends
      (unlabelled_append form.condition.inside nonempty unlabelled noColon)
  rw [Grammar.readModified_modifier nested plain unmodified modifies form.condition.nonempty,
    expression, same, ← block, ← parseStatement_eq] at read
  have whole : head :: tail ++ keyword :: (form.condition.inside ++ [stop]) =
      head :: (tail ++ keyword :: form.condition.inside) ++ [stop] := by
    rw [List.cons_append, List.cons_append, List.append_assoc, List.cons_append]
  rw [parseItems_ok, one, whole, List.filterMap_cons_some read, List.filterMap_nil]

/-- The block form of a condition that is the number two, around the number one. -/
def ifTwo : Guarded .controlKeyword "if" where
  keyword := ⟨⟨.identifier, "if", ⟨1, 3⟩⟩, .controlKeyword⟩
  spelled := by decide
  condition :=
    { first := ⟨⟨.openParen, "(", ⟨1, 6⟩⟩, .leftParen⟩
      inside := [⟨⟨.number, "2", ⟨1, 7⟩⟩, .literal⟩]
      last := ⟨⟨.closeParen, ")", ⟨1, 8⟩⟩, .rightParen⟩
      opens := rfl
      closes := rfl
      bracket := rfl
      nested := .plain rfl rfl .nil
      nonempty := List.cons_ne_nil _ _ }
  block :=
    { first := ⟨⟨.openBrace, "\x7b", ⟨1, 10⟩⟩, .leftBrace⟩
      inside := [⟨⟨.number, "1", ⟨1, 1⟩⟩, .literal⟩, ⟨⟨.semicolon, ";", ⟨1, 11⟩⟩, .terminator⟩]
      last := ⟨⟨.closeBrace, "\x7d", ⟨1, 12⟩⟩, .rightBrace⟩
      opens := rfl
      closes := rfl
      bracket := rfl
      nested := .plain rfl rfl (.plain rfl rfl .nil) }

/-- The number one, if two. -/
theorem parseItems_modifier_if :
    ∃ node : Node,
      parseItems (([⟨⟨.number, "1", ⟨1, 1⟩⟩, .literal⟩,
        ⟨⟨.identifier, "if", ⟨1, 3⟩⟩, .controlKeyword⟩, ⟨⟨.number, "2", ⟨1, 7⟩⟩, .literal⟩,
        ⟨⟨.semicolon, ";", ⟨1, 11⟩⟩, .terminator⟩] : List Lexeme).map .ok) = [node] ∧
      parseItems (ifTwo.lexemes.map .ok) = [node] :=
  @parseItems_modifier "if" ifTwo.keyword ⟨⟨.semicolon, ";", ⟨1, 11⟩⟩, .terminator⟩
    ⟨⟨.semicolon, ";", ⟨1, 11⟩⟩, .terminator⟩ [⟨⟨.number, "1", ⟨1, 1⟩⟩, .literal⟩] ifTwo
    (by decide) rfl rfl rfl rfl rfl (.plain rfl rfl .nil) (List.cons_ne_nil _ _) rfl
    (by simp) rfl
    (Boundary.Takes.splitStatements (.cons rfl (.cons rfl (.cons rfl (.nil _)))) rfl _)
    (Boundary.Takes.splitStatements (.cons rfl (.nil _)) rfl _)

end SigilScript
