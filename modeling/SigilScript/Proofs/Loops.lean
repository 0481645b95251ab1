import SigilScript.Proofs.Compound
import SigilScript.Proofs.Indices

/-! # Loops over a header

The parentheses of a loop hold a list or the three clauses of a counting loop. Clauses are parted by
the terminators that stand outside every group, and a properly nested header has one division into
clauses, empty ones among them. Terminators in the header end neither the header nor the statement,
so the number of clauses alone tells which loop is read, and each clause is parsed by itself.
-/

namespace SigilScript

/-! ## Clauses -/

/-- A list is one clause: it is properly nested, and no terminator stands outside its groups. -/
inductive IsClause : List Lexeme → Prop where
  | nil : IsClause []
  | plain {lexeme : Lexeme} {rest : List Lexeme} (opens : lexeme.category.isOpener = false)
    (closes : lexeme.category.isCloser = false) (further : lexeme.category ≠ .terminator)
    (clause : IsClause rest) : IsClause (lexeme :: rest)
  | group {opener closer : Lexeme} {inner rest : List Lexeme}
    (partner : opener.category.closer? = some closer.category) (inside : Nested inner)
    (clause : IsClause rest) : IsClause (opener :: (inner ++ closer :: rest))

/-- The clauses of a list: a terminator stands behind each of them but the last. -/
inductive Clauses : List Lexeme → List (List Lexeme) → Prop where
  | last {clause : List Lexeme} (one : IsClause clause) : Clauses clause [clause]
  | more {clause rest : List Lexeme} {stop : Lexeme} {clauses : List (List Lexeme)}
    (one : IsClause clause) (ends : stop.category = .terminator) (further : Clauses rest clauses) :
    Clauses (clause ++ stop :: rest) (clause :: clauses)

namespace IsClause

variable {clause : List Lexeme}

theorem append {rest : List Lexeme} (first : IsClause clause) (second : IsClause rest) :
    IsClause (clause ++ rest) := by
  induction first with
  | nil => exact second
  | plain opens closes further _ ih => exact .plain opens closes further ih
  | @group opener closer inner rest partner inside _ ih =>
    rw [List.cons_append, List.append_assoc, List.cons_append]
    exact .group partner inside ih

theorem nested (one : IsClause clause) : Nested clause := by
  induction one with
  | nil => exact .nil
  | plain opens closes _ _ ih => exact .plain opens closes ih
  | group partner inside _ ih => exact .group partner inside ih

theorem cut (one : IsClause clause) :
    cutAtTopLevel? (fun lexeme => lexeme.category = .terminator) 0 clause = none := by
  induction one with
  | nil => rfl
  | plain opens closes further _ ih =>
    simp [cutAtTopLevel?, further, Category.depthAfter?_plain opens closes, ih]
  | @group opener closer inner rest partner inside _ ih =>
    have unwanted : opener.category ≠ .terminator := by
      intro same
      have opens := Category.isOpener_of_closer? partner
      rw [same] at opens
      contradiction
    rw [cutAtTopLevel?_group _ partner (decide_eq_false unwanted) inside, ih, Option.map_none]

/-- A search for a terminator at depth zero passes over a clause. -/
theorem cut_append (one : IsClause clause) (rest : List Lexeme) :
    cutAtTopLevel? (fun lexeme => lexeme.category = .terminator) 0 (clause ++ rest) =
      (cutAtTopLevel? (fun lexeme => lexeme.category = .terminator) 0 rest).map
        (Cut.pushAll clause) :=
  cutAtTopLevel?_behind _ one.nested one.cut rest

theorem hasTopLevel (one : IsClause clause) :
    SigilScript.hasTopLevel clause .terminator = false :=
  hasTopLevel_eq_false_iff.mpr one.cut

theorem hasTopLevel_append (one : IsClause clause) {stop : Lexeme}
    (ends : stop.category = .terminator) (rest : List Lexeme) :
    SigilScript.hasTopLevel (clause ++ stop :: rest) .terminator = true := by
  rw [SigilScript.hasTopLevel, one.cut_append]
  simp [cutAtTopLevel?, ends]

end IsClause

namespace Clauses

variable {lexemes : List Lexeme} {clauses : List (List Lexeme)}

/-- More of the first clause in front makes no further clause. -/
theorem push {front : List Lexeme} (one : IsClause front) (divided : Clauses lexemes clauses) :
    ∃ clauses, Clauses (front ++ lexemes) clauses := by
  cases divided with
  | last rest => exact ⟨_, .last (one.append rest)⟩
  | more rest ends further =>
    rw [← List.append_assoc]
    exact ⟨_, .more (one.append rest) ends further⟩

/-- Whatever is properly nested has clauses. -/
theorem exists_of_nested (nested : Nested lexemes) : ∃ clauses, Clauses lexemes clauses := by
  induction nested with
  | nil => exact ⟨_, .last .nil⟩
  | @plain lexeme rest opens closes _ ih =>
    obtain ⟨clauses, divided⟩ := ih
    by_cases ends : lexeme.category = .terminator
    · exact ⟨_, .more .nil ends divided⟩
    · exact divided.push (.plain opens closes ends .nil)
  | @group opener closer inner rest partner inside _ _ ih =>
    obtain ⟨clauses, divided⟩ := ih
    have pushed := divided.push (.group partner inside .nil)
    rwa [List.cons_append, List.append_assoc, List.singleton_append] at pushed

/-- A properly nested list in which no terminator is found is its only clause. -/
theorem single (nested : Nested lexemes) (flat : hasTopLevel lexemes .terminator = false) :
    Clauses lexemes [lexemes] := by
  obtain ⟨clauses, divided⟩ := exists_of_nested nested
  cases divided with
  | last one => exact .last one
  | more one ends _ =>
    rw [one.hasTopLevel_append ends] at flat
    contradiction

/-- The clauses are the segments between terminators. -/
theorem segments (divided : Clauses lexemes clauses) :
    (segmentsFrom .terminator 0 lexemes).map Segment.lexemes = clauses := by
  induction divided with
  | @last clause one =>
    rw [segmentsFrom_alone rfl rfl one.hasTopLevel]
    rfl
  | @more clause rest stop clauses one ends _ ih =>
    rw [segmentsFrom_behind rfl rfl one.nested one.hasTopLevel ends, List.map_cons, ih]

theorem unique {other : List (List Lexeme)} (divided : Clauses lexemes clauses)
    (divided' : Clauses lexemes other) : other = clauses := by
  rw [← divided.segments, ← divided'.segments]

/-- There is one clause more than there are terminators outside the groups. -/
theorem length_eq (divided : Clauses lexemes clauses) :
    clauses.length =
      (topLevelPositions lexemes 0 fun lexeme => lexeme.category = .terminator).length + 1 := by
  rcases lexemes with _ | ⟨lexeme, rest⟩
  · rw [← divided.segments]
    rfl
  · have slices := splitTopLevel_eq_slicesBetween .terminator (List.cons_ne_nil lexeme rest)
    have segments : splitTopLevel (lexeme :: rest) .terminator = clauses := divided.segments
    rw [← segments, slices, length_slicesBetween]

end Clauses

/-! ## Reading the header and the block -/

/-- A loop without a variable of its own: its keyword, what stands in its parentheses, and its
block. -/
structure Loop where
  keyword : Lexeme
  begins : keyword.BeginsLoop
  header : Group .leftParen .rightParen
  block : Block

namespace Loop

/-- The lexemes of a loop. -/
def lexemes (loop : Loop) : List Lexeme :=
  loop.keyword :: (loop.header.lexemes ++ loop.block.lexemes)

/-- What the block of a loop is parsed as. -/
def body (loop : Loop) : List Node := parseItems (loop.block.inside.map .ok)

/-- What a clause is parsed as by itself: nothing where it is empty, and a declaration with its
initializer where it declares something. -/
def clause (loop : Loop) (lexemes : List Lexeme) : Option Node :=
  if lexemes.isEmpty then none
  else if nextIs .declarator lexemes then
    some (Grammar.foldDeclaration (parseExpression loop.keyword.position lexemes))
  else some (parseExpression loop.keyword.position lexemes)

/-- The tree of a loop by the clauses of its header: one is the list that it goes through, three
are those of a counting loop, and any other number is a fault. -/
def node (loop : Loop) : List (List Lexeme) → Node
  | [items] =>
    .foreachLoop none none none
      (if items.isEmpty then .list [] else parseExpression loop.keyword.position items) loop.body
  | [init, condition, step] =>
    .forLoop none (loop.clause init) (loop.clause condition) (loop.clause step) loop.body
  | _ => .error ⟨.expected .loopClauses none, loop.keyword.position⟩

end Loop

namespace Grammar

/-- Without a variable of its own, a loop is told by what stands in its parentheses. -/
theorem readFor_parens (keyword : Lexeme) (header : Group .leftParen .rightParen) (block : Block) :
    full.readFor keyword (header.lexemes ++ block.lexemes) =
      let body := parseItems (block.inside.map .ok)
      if hasTopLevel header.inside .terminator then
        match splitTopLevel header.inside .terminator with
        | [init, condition, step] =>
          (.forLoop none (full.readLoopClause keyword init) (full.readLoopClause keyword condition)
            (full.readLoopClause keyword step) body, [])
        | _ => (.expected .loopClauses none keyword.position, [])
      else
        (.foreachLoop none none none
          (if header.inside.isEmpty then .list []
            else parseExpression keyword.position header.inside) body, []) := by
  have braces (finish : Position) := readBlock_braces finish block []
  simp only [List.append_nil] at braces
  have declarator : readLoopDeclarator (header.lexemes ++ block.lexemes) =
      (none, header.lexemes ++ block.lexemes) := by
    simp [readLoopDeclarator, header.opens]
  have holder : readLoopHolder (header.lexemes ++ block.lexemes) =
      (none, header.lexemes ++ block.lexemes) := by
    simp [readLoopHolder, header.bracket]
  have group : readLoopGroup keyword (header.lexemes ++ block.lexemes) =
      (.ok header.inside, block.lexemes) := by
    rw [Group.lexemes_append]
    simp only [readLoopGroup, header.opens, ↓reduceIte, readGroup, header.takeGroup rfl]
  have read := readFor_eq full keyword (header.lexemes ++ block.lexemes)
  simp only [declarator, holder, group, braces, Option.isNone_none, Bool.and_self, Bool.true_and,
    ← parseExpression_eq] at read
  exact read

theorem readLoopClause_eq (loop : Loop) (lexemes : List Lexeme) :
    full.readLoopClause loop.keyword lexemes = loop.clause lexemes := by
  simp only [readLoopClause, Loop.clause, parseExpression_eq]
  split
  · rfl
  · split <;> rfl

/-- A loop is read by the clauses of its header. -/
theorem readFor_loop (loop : Loop) {clauses : List (List Lexeme)}
    (divided : Clauses loop.header.inside clauses) :
    full.readFor loop.keyword (loop.header.lexemes ++ loop.block.lexemes) =
      (loop.node clauses, []) := by
  have segments := divided.segments
  rw [readFor_parens]
  generalize loop.header.inside = inside at divided segments ⊢
  cases divided with
  | last one =>
    simp only [one.hasTopLevel, Bool.false_eq_true, ↓reduceIte]
    rfl
  | @more clause rest stop clauses one ends further =>
    have split : splitTopLevel (clause ++ stop :: rest) .terminator = clause :: clauses := by
      rw [← segments]
      cases clause <;> rfl
    simp only [one.hasTopLevel_append ends, ↓reduceIte, split, readLoopClause_eq]
    cases further with
    | last => rfl
    | more _ _ further =>
      cases further with
      | last => rfl
      | more _ _ further => cases further <;> rfl

end Grammar

/-! ## The whole statement -/

namespace Loop

variable (loop : Loop)

/-- Whatever its header holds, a loop is one statement. -/
theorem splitStatements (rest : List Lexeme) :
    splitStatements (loop.lexemes ++ rest) = loop.lexemes :: SigilScript.splitStatements rest := by
  have bears : loop.keyword.head = .blockBearing .alone := by
    rcases loop.begins with ⟨role, text | text⟩
    · simp [Lexeme.head, role, text]
    · simp [Lexeme.head, role, text]
  have keyword := Boundary.takes_keyword bears (.inl loop.begins.1)
  have header := keyword.append (Boundary.takes_parens loop.header)
  exact splitStatements_completed
    (header.completes (Boundary.completes_braces loop.block rest (.inl rfl)))

theorem parseStatement {clauses : List (List Lexeme)}
    (divided : Clauses loop.header.inside clauses) :
    parseStatement loop.lexemes = some (loop.node clauses) := by
  have unterminated : Unterminated loop.lexemes :=
    .of_braces (loop.keyword :: loop.header.lexemes) loop.block
  have read := Grammar.readFor_loop loop divided
  rw [lexemes] at unterminated ⊢
  obtain ⟨role, text⟩ := loop.begins
  rw [parseStatement_eq, Grammar.readStatement_unmodified unterminated (by simp [role])
    (.inl role)]
  rcases text with text | text
  · simp only [Grammar.readSimple, role, Grammar.readControl, text, read, Node.finish]
  · simp only [Grammar.readSimple, role, Grammar.readControl, text, read, Node.finish]

end Loop

/-- A counting loop with a condition alone and an empty block. -/
def Loop.whileOne : Loop where
  keyword := ⟨⟨.identifier, "for", ⟨1, 1⟩⟩, .controlKeyword⟩
  begins := ⟨rfl, .inl rfl⟩
  header := ⟨⟨⟨.openParen, "(", ⟨1, 5⟩⟩, .leftParen⟩,
    [⟨⟨.semicolon, ";", ⟨1, 6⟩⟩, .terminator⟩, ⟨⟨.number, "1", ⟨1, 8⟩⟩, .literal⟩,
      ⟨⟨.semicolon, ";", ⟨1, 9⟩⟩, .terminator⟩],
    ⟨⟨.closeParen, ")", ⟨1, 10⟩⟩, .rightParen⟩, rfl, rfl, rfl,
    .plain rfl rfl (.plain rfl rfl (.plain rfl rfl .nil))⟩
  block := ⟨⟨⟨.openBrace, "\x7b", ⟨1, 12⟩⟩, .leftBrace⟩, [],
    ⟨⟨.closeBrace, "\x7d", ⟨1, 13⟩⟩, .rightBrace⟩, rfl, rfl, rfl, .nil⟩

end SigilScript
