import SigilScript.Proofs.Grammar.Group

/-! # Compound statements

A compound statement is made of keywords, conditions and blocks. Its boundary recognises the chain
of its clauses one lexeme at a time, and its production reads the clauses again from the front; the
two agree on where it ends. So a program that begins with a compound statement is parsed as the
tree built from what its conditions and its blocks are parsed as, and then as what stands behind.
-/

namespace SigilScript

/-! ## Statements made of groups -/

/-- The keyword of a conditional. -/
def Polarity.conditionalKeyword : Polarity → String
  | .affirmed => "if"
  | .negated => "unless"

/-- The keyword of a loop with a condition. -/
def Polarity.loopKeyword : Polarity → String
  | .affirmed => "while"
  | .negated => "until"

/-- The keyword of a statement with a head in parentheses and a block. -/
def Topic.keyword : Topic → String
  | .given => "given"
  | .whenever => "when"
  | .matching => "match"
  | .case => "case"

/-- A conditional with its chain. -/
structure Conditional (polarity : Polarity) where
  first : Guarded .controlKeyword polarity.conditionalKeyword
  further : List (Guarded .controlKeyword "elsif")
  otherwise : Option (Unguarded .controlKeyword "else")

/-- A handler: a keyword, the variable that holds the message in parentheses, and a block. -/
structure Handling where
  keyword : Lexeme
  spelled : keyword.isSpelled .keyword "catch" = true
  group : Group .leftParen .rightParen
  holder : Lexeme
  sigil : Sigil
  names : group.inside = [holder]
  kind : holder.token.kind = .var sigil
  block : Block

/-- A block whose messages are handled. -/
structure Attempt where
  first : Unguarded .keyword "try"
  handler : Option Handling
  final : Option (Unguarded .keyword "finally")

/-- A statement made of keywords, conditions and blocks. -/
inductive Compound where
  | conditional (polarity : Polarity) (statement : Conditional polarity)
  | loop (polarity : Polarity) (statement : Guarded .controlKeyword polarity.loopKeyword)
  | topic (kind : Topic) (statement : Guarded .keyword kind.keyword)
  | attempt (statement : Attempt)

namespace Conditional

variable {polarity : Polarity}

def lexemes (statement : Conditional polarity) : List Lexeme :=
  statement.first.lexemes ++
    (statement.further.flatMap Guarded.lexemes ++ statement.otherwise.elim [] Unguarded.lexemes)

/-- The conditional of its first condition, with the further ones added in order. -/
def node (statement : Conditional polarity) : Node :=
  let chain := statement.further.foldl (fun node clause => node.elsif clause.expression clause.body)
    (.conditionalOf polarity statement.first.expression statement.first.body)
  match statement.otherwise with
  | none => chain
  | some last => chain.otherwise last.body

end Conditional

namespace Handling

def lexemes (handling : Handling) : List Lexeme :=
  handling.keyword :: (handling.group.lexemes ++ handling.block.lexemes)

/-- The handler with its variable and its block. -/
def handler (handling : Handling) : Handler Node :=
  ⟨some (.ofSpelling handling.sigil handling.holder.text),
    parseItems (handling.block.inside.map .ok)⟩

end Handling

namespace Attempt

def lexemes (statement : Attempt) : List Lexeme :=
  statement.first.lexemes ++
    (statement.handler.elim [] Handling.lexemes ++ statement.final.elim [] Unguarded.lexemes)

def node (statement : Attempt) : Node :=
  .tryBlock statement.first.body (statement.handler.map Handling.handler)
    (statement.final.map Unguarded.body)

end Attempt

namespace Compound

def lexemes : Compound → List Lexeme
  | .conditional _ statement => statement.lexemes
  | .loop _ statement => statement.lexemes
  | .topic _ statement => statement.lexemes
  | .attempt statement => statement.lexemes

/-- The tree built from what the conditions and the blocks are parsed as. -/
def node : Compound → Node
  | .conditional _ statement => statement.node
  | .loop polarity statement => .whileLoop polarity none statement.expression statement.body
  | .topic kind statement => .topic kind statement.expression statement.body
  | .attempt statement => statement.node

/-- Whether a lexeme behind the statement continues it. -/
def continuedBy (next : Lexeme) : Compound → Bool
  | .conditional _ statement =>
    statement.otherwise.isNone && Chain.conditional.continuedBy next
  | .attempt statement => statement.final.isNone && Chain.attempt.continuedBy next
  | .loop .. | .topic .. => false

end Compound

/-! ## Where they end -/

namespace Boundary

variable {chain : Chain} {category : Category} {spelling : String}

/-- A keyword with a block begins a statement that its chain may continue. -/
theorem takes_unguarded (clause : Unguarded category spelling)
    (bears : clause.keyword.head = .blockBearing chain)
    (role : category = .controlKeyword ∨ category = .keyword) (continues : chain ≠ .alone) :
    start.Takes clause.lexemes (awaitingChain chain) :=
  (takes_keyword bears (by rwa [clause.role])).append (takes_braces clause.block continues)

/-- A keyword with a condition leads up to its block. -/
theorem takes_condition (clause : Guarded category spelling)
    (bears : clause.keyword.head = .blockBearing chain)
    (role : category = .controlKeyword ∨ category = .keyword) :
    start.Takes (clause.keyword :: clause.condition.lexemes) (bearing chain false) :=
  (takes_keyword bears (by rwa [clause.role])).append (takes_parens clause.condition.toGroup)

/-- The further conditions of a conditional are taken whole. -/
theorem takes_further (further : List (Guarded .controlKeyword "elsif")) :
    (awaitingChain .conditional).Takes (further.flatMap Guarded.lexemes)
      (awaitingChain .conditional) := by
  induction further with
  | nil => exact .nil _
  | cons clause further ih =>
    have continues : Chain.conditional.continuedBy clause.keyword = true := by
      simp [Chain.continuedBy, clause.role, clause.text]
    have open' : clause.keyword.closesChain = false := by
      simp [Lexeme.closesChain, clause.text]
    have begun := takes_continuation continues
    rw [open'] at begun
    have condition := begun.append (takes_parens clause.condition.toGroup)
    have taken := condition.append (takes_braces clause.block (by decide))
    rw [List.flatMap_cons, Guarded.lexemes]
    exact taken.append ih

/-- A handler is taken whole. -/
theorem takes_handling (handling : Handling) :
    (awaitingChain .attempt).Takes handling.lexemes (awaitingChain .attempt) := by
  obtain ⟨role, text⟩ := Lexeme.isSpelled_iff.mp handling.spelled
  have continues : Chain.attempt.continuedBy handling.keyword = true := by
    simp [Chain.continuedBy, role, text]
  have open' : handling.keyword.closesChain = false := by simp [Lexeme.closesChain, text]
  have begun := takes_continuation continues
  rw [open'] at begun
  exact (begun.append (takes_parens handling.group)).append
    (takes_braces handling.block (by decide))

/-- The last clause of a chain completes the statement. -/
theorem completes_last (clause : Unguarded category spelling)
    (continues : chain.continuedBy clause.keyword = true)
    (closes : clause.keyword.closesChain = true) (rest : List Lexeme) :
    (awaitingChain chain).Completes clause.lexemes rest := by
  have begun := takes_continuation continues
  rw [closes] at begun
  exact begun.completes (completes_braces clause.block rest (.inr rfl))

/-- A chain that awaits a further clause is over where none follows. -/
theorem splitStatements_awaiting {statement rest : List Lexeme} (nonempty : statement ≠ [])
    (takes : start.Takes statement (awaitingChain chain))
    (done : ∀ next ∈ rest.head?, chain.continuedBy next = false) :
    splitStatements (statement ++ rest) = statement :: splitStatements rest := by
  cases rest with
  | nil => rw [List.append_nil, takes.splitStatements_self nonempty, splitStatements]
  | cons next rest =>
    have completed := takes.completes (ends_awaitingChain (done next rfl) rest)
    rw [List.append_nil] at completed
    exact splitStatements_completed completed

/-- A chain is one statement with its last clause, and without one where nothing continues it. -/
theorem splitStatements_chain {front rest : List Lexeme} (nonempty : front ≠ [])
    (takes : start.Takes front (awaitingChain chain)) (last : Option (Unguarded category spelling))
    (continues : ∀ clause ∈ last, chain.continuedBy clause.keyword = true)
    (closes : ∀ clause ∈ last, clause.keyword.closesChain = true)
    (done : ∀ next ∈ rest.head?, (last.isNone && chain.continuedBy next) = false) :
    splitStatements (front ++ last.elim [] Unguarded.lexemes ++ rest) =
      (front ++ last.elim [] Unguarded.lexemes) :: splitStatements rest := by
  cases last with
  | none =>
    rw [Option.elim_none, List.append_nil]
    exact splitStatements_awaiting nonempty takes (by simpa using done)
  | some clause =>
    rw [Option.elim_some]
    exact splitStatements_completed
      (takes.completes (completes_last clause (continues clause rfl) (closes clause rfl) rest))

end Boundary

/-! ## How they are read -/

theorem Unterminated.of_guarded {category : Category} {spelling : String} (front : List Lexeme)
    (clause : Guarded category spelling) : Unterminated (front ++ clause.lexemes) := by
  rw [Guarded.lexemes, List.append_cons, ← List.append_assoc]
  exact .of_braces _ clause.block

theorem Unterminated.of_unguarded {category : Category} {spelling : String} (front : List Lexeme)
    (clause : Unguarded category spelling) : Unterminated (front ++ clause.lexemes) := by
  rw [Unguarded.lexemes, List.append_cons]
  exact .of_braces _ clause.block

theorem Unterminated.append_optional {category : Category} {spelling : String}
    {front : List Lexeme} (unterminated : Unterminated front)
    (clause : Option (Unguarded category spelling)) :
    Unterminated (front ++ clause.elim [] Unguarded.lexemes) := by
  cases clause with
  | none => rwa [Option.elim, List.append_nil]
  | some clause => exact .of_unguarded front clause

theorem Unterminated.append_further {category : Category} {spelling : String}
    {front : List Lexeme} (unterminated : Unterminated front)
    (further : List (Guarded category spelling)) :
    Unterminated (front ++ further.flatMap Guarded.lexemes) := by
  induction further generalizing front with
  | nil => rwa [List.flatMap_nil, List.append_nil]
  | cons clause further ih =>
    rw [List.flatMap_cons, ← List.append_assoc]
    exact ih (.of_guarded front clause)

/-- The further conditions are added to a conditional in order. -/
theorem Node.foldl_elsif {polarity : Polarity} (condition : Node) (body : List Node)
    (clauses : List (Clause Node)) (otherwise : Option (List Node))
    (further : List (Guarded .controlKeyword "elsif")) :
    further.foldl (fun (node : Node) clause => node.elsif clause.expression clause.body)
        (.conditional polarity condition body clauses otherwise) =
      .conditional polarity condition body
        (clauses ++ further.map fun clause => ⟨clause.expression, clause.body⟩) otherwise := by
  induction further generalizing clauses with
  | nil => rw [List.foldl_nil, List.map_nil, List.append_nil]
  | cons clause further ih =>
    rw [List.foldl_cons, List.map_cons, List.append_cons]
    exact ih (clauses ++ [⟨clause.expression, clause.body⟩])

theorem Conditional.node_eq {polarity : Polarity} (statement : Conditional polarity) :
    statement.node = .conditional polarity statement.first.expression statement.first.body
      (statement.further.map fun clause => ⟨clause.expression, clause.body⟩)
      (statement.otherwise.map Unguarded.body) := by
  simp only [Conditional.node, Node.conditionalOf, Node.foldl_elsif, List.nil_append]
  cases statement.otherwise with
  | none => rfl
  | some last => rfl

namespace Grammar

variable {category : Category} {spelling : String} {finish : Position} {rest : List Lexeme}

theorem readCondition_guarded (clause : Guarded category spelling) (rest : List Lexeme) :
    full.readCondition clause.keyword (clause.condition.lexemes ++ rest) =
      (clause.expression, rest) :=
  readCondition_condition clause.keyword clause.condition rest

/-- A clause that may follow begins with its own keyword. -/
theorem isSpelled_optional (role : Category) (last : Option (Unguarded category spelling))
    (other : String) (distinct : spelling ≠ other) :
    ∀ next ∈ (last.elim [] Unguarded.lexemes).head?, next.isSpelled role other = false := by
  intro next member
  cases last with
  | none => simp at member
  | some last =>
    obtain rfl := Option.some.inj member
    simp [Lexeme.isSpelled, last.text, distinct]

/-- The further conditions are read up to what is none. -/
theorem readClauses_further (further : List (Guarded .controlKeyword "elsif"))
    (behind : ∀ next ∈ rest.head?, next.isSpelled .controlKeyword "elsif" = false) :
    full.readClauses finish (further.flatMap Guarded.lexemes ++ rest) =
      (further.map fun clause => ⟨clause.expression, clause.body⟩, rest) := by
  induction further with
  | nil =>
    cases rest with
    | nil => rfl
    | cons next rest =>
      simp only [List.flatMap_nil, List.nil_append, readClauses, behind next rfl,
        Bool.false_eq_true, ↓reduceIte, List.map_nil]
  | cons clause further ih =>
    rw [List.flatMap_cons, List.append_assoc, Guarded.lexemes_append]
    simp only [readClauses, clause.spelled, ↓reduceIte, readCondition_guarded, readBlock_braces,
      full_clauses, ih, List.map_cons]
    rfl

/-- The block behind a continuing keyword is read if the keyword follows. -/
theorem readContinuation_optional (last : Option (Unguarded category spelling)) :
    full.readContinuation finish category spelling (last.elim [] Unguarded.lexemes) =
      (last.map Unguarded.body, []) := by
  cases last with
  | none => rfl
  | some last =>
    have block := readBlock_braces finish last.block []
    rw [List.append_nil] at block
    simp only [Option.elim, Unguarded.lexemes, readContinuation, last.spelled, ↓reduceIte, block]
    rfl

theorem readConditional_conditional {polarity : Polarity} (statement : Conditional polarity) :
    full.readConditional polarity statement.first.keyword
        (statement.first.condition.lexemes ++ (statement.first.block.lexemes ++
          (statement.further.flatMap Guarded.lexemes ++
            statement.otherwise.elim [] Unguarded.lexemes))) =
      (statement.node, []) := by
  have behind := isSpelled_optional .controlKeyword statement.otherwise "elsif" (by decide)
  simp only [readConditional, readCondition_guarded, readBlock_braces, readClauses_further _ behind,
    readContinuation_optional, Conditional.node_eq]
  rfl

/-- A handler is read if one follows. -/
theorem readHandler_optional (handling : Option Handling)
    (behind : ∀ next ∈ rest.head?, next.isSpelled .keyword "catch" = false) :
    full.readHandler finish (handling.elim [] Handling.lexemes ++ rest) =
      (handling.map Handling.handler, rest) := by
  cases handling with
  | none =>
    cases rest with
    | nil => rfl
    | cons next rest =>
      simp only [Option.elim, List.nil_append, readHandler, behind next rfl, Bool.false_eq_true,
        ↓reduceIte, Option.map_none]
  | some handling =>
    have holder : readHandlerHolder (handling.group.lexemes ++ (handling.block.lexemes ++ rest)) =
        (some (.ofSpelling handling.sigil handling.holder.text),
          handling.block.lexemes ++ rest) := by
      have variable' : handlerVariable handling.group.first handling.group.inside =
          .ofSpelling handling.sigil handling.holder.text := by
        simp only [handling.names, handlerVariable, Lexeme.asVar?, handling.kind, Option.getD_some]
      rw [Group.lexemes_append]
      simp only [readHandlerHolder, handling.group.opens, ↓reduceIte, readGroup,
        handling.group.takeGroup rfl, variable']
    rw [Option.elim, Handling.lexemes, List.cons_append, List.append_assoc, readHandler_cons,
      if_pos handling.spelled]
    simp only [holder, readBlock_braces]
    rfl

theorem readTry_attempt (statement : Attempt) :
    full.readTry statement.first.keyword
        (statement.first.block.lexemes ++ (statement.handler.elim [] Handling.lexemes ++
          statement.final.elim [] Unguarded.lexemes)) =
      (statement.node, []) := by
  have behind := isSpelled_optional .keyword statement.final "catch" (by decide)
  simp only [readTry, readBlock_braces, readHandler_optional _ behind, readContinuation_optional]
  rfl

end Grammar

/-! ## Where no modifier stands -/

/-- A search for a modifier at depth zero passes over these lexemes. -/
def Unmodified (lexemes : List Lexeme) : Prop :=
  ∀ rest : List Lexeme, cutAtTopLevel? Lexeme.isModifier 0 (lexemes ++ rest) =
    (cutAtTopLevel? Lexeme.isModifier 0 rest).map (Cut.pushAll lexemes)

namespace Unmodified

theorem nil : Unmodified [] := fun _ => (Cut.map_pushAll_nil _).symm

theorem append {first second : List Lexeme} (left : Unmodified first)
    (right : Unmodified second) : Unmodified (first ++ second) := by
  intro rest
  rw [List.append_assoc, left, right, Option.map_map, Cut.pushAll_comp_pushAll]

theorem keyword {lexeme : Lexeme} (role : lexeme.category = .keyword) : Unmodified [lexeme] := by
  intro rest
  simp [cutAtTopLevel?, Lexeme.isModifier, role, Category.depthAfter?, Category.isOpener,
    Category.isCloser]
  rfl

theorem group {opener closer : Category} (group : Group opener closer)
    (partners : opener.closer? = some closer) : Unmodified group.lexemes :=
  group.cutAtModifier partners

theorem nowhere {lexemes : List Lexeme} (unmodified : Unmodified lexemes) :
    cutAtTopLevel? Lexeme.isModifier 0 lexemes = none := by
  have found := unmodified []
  rwa [List.append_nil] at found

theorem guarded {spelling : String} (clause : Guarded .keyword spelling) :
    Unmodified clause.lexemes :=
  (keyword clause.role).append ((group clause.condition.toGroup rfl).append (group clause.block rfl))

theorem unguarded {spelling : String} (clause : Unguarded .keyword spelling) :
    Unmodified clause.lexemes :=
  (keyword clause.role).append (group clause.block rfl)

theorem attempt (statement : Attempt) : Unmodified statement.lexemes := by
  have handler : Unmodified (statement.handler.elim [] Handling.lexemes) := by
    cases statement.handler with
    | none => exact nil
    | some handling =>
      exact (keyword (Lexeme.isSpelled_iff.mp handling.spelled).1).append
        ((group handling.group rfl).append (group handling.block rfl))
  have final : Unmodified (statement.final.elim [] Unguarded.lexemes) := by
    cases statement.final with
    | none => exact nil
    | some last => exact unguarded last
  exact (unguarded statement.first).append (handler.append final)

end Unmodified

/-! ## Each kind of statement -/

namespace Conditional

variable {polarity : Polarity}

theorem splitStatements (statement : Conditional polarity) {rest : List Lexeme}
    (done : ∀ next ∈ rest.head?,
      (statement.otherwise.isNone && Chain.conditional.continuedBy next) = false) :
    splitStatements (statement.lexemes ++ rest) =
      statement.lexemes :: SigilScript.splitStatements rest := by
  have bears : statement.first.keyword.head = .blockBearing .conditional := by
    cases polarity <;>
      simp [Lexeme.head, statement.first.role, statement.first.text, Polarity.conditionalKeyword]
  have begun := (Boundary.takes_condition statement.first bears (.inl rfl)).append
    (Boundary.takes_braces statement.first.block (by decide))
  have takes := begun.append (Boundary.takes_further statement.further)
  rw [lexemes, ← List.append_assoc]
  exact Boundary.splitStatements_chain (List.cons_ne_nil _ _) takes statement.otherwise
    (fun clause _ => by simp [Chain.continuedBy, clause.role, clause.text])
    (fun clause _ => by simp [Lexeme.closesChain, clause.text]) done

theorem parseStatement (statement : Conditional polarity) :
    parseStatement statement.lexemes = some statement.node := by
  have unterminated : Unterminated statement.lexemes := by
    rw [lexemes, ← List.append_assoc]
    exact ((Unterminated.of_guarded [] statement.first).append_further _).append_optional _
  have read := Grammar.readConditional_conditional statement
  rw [lexemes, Guarded.lexemes_append] at unterminated ⊢
  rw [parseStatement_eq, Grammar.readStatement_unmodified unterminated
    (by simp [statement.first.role]) (.inl statement.first.role)]
  cases polarity <;>
    simp only [Grammar.readSimple, statement.first.role, Grammar.readControl, statement.first.text,
      Polarity.conditionalKeyword, read, Node.finish]

end Conditional

/-- A keyword with a condition and a block is one statement, where nothing continues it. -/
theorem Guarded.splitStatements {category : Category} {spelling : String}
    (clause : Guarded category spelling) (bears : clause.keyword.head = .blockBearing .alone)
    (role : category = .controlKeyword ∨ category = .keyword) (rest : List Lexeme) :
    splitStatements (clause.lexemes ++ rest) =
      clause.lexemes :: SigilScript.splitStatements rest :=
  splitStatements_completed ((Boundary.takes_condition clause bears role).completes
    (Boundary.completes_braces clause.block rest (.inl rfl)))

/-- A loop is read with its condition and its block. -/
theorem Grammar.readWhile_guarded {polarity : Polarity} {spelling : String}
    (clause : Guarded .controlKeyword spelling) :
    full.readWhile polarity clause.keyword (clause.condition.lexemes ++ clause.block.lexemes) =
      (.whileLoop polarity none clause.expression clause.body, []) := by
  have block (finish : Position) := readBlock_braces finish clause.block []
  simp only [List.append_nil] at block
  simp only [readWhile, readCondition_guarded, block]
  rfl

theorem parseStatement_loop {polarity : Polarity}
    (statement : Guarded .controlKeyword polarity.loopKeyword) :
    parseStatement statement.lexemes =
      some (.whileLoop polarity none statement.expression statement.body) := by
  have unterminated := Unterminated.of_guarded [] statement
  rw [parseStatement_eq, Guarded.lexemes, Grammar.readStatement_unmodified unterminated
    (by simp [statement.role]) (.inl statement.role)]
  cases polarity <;>
    simp only [Grammar.readSimple, statement.role, Grammar.readControl, statement.text,
      Polarity.loopKeyword, Grammar.readWhile_guarded, Node.finish]

theorem parseStatement_topic {kind : Topic} (statement : Guarded .keyword kind.keyword) :
    parseStatement statement.lexemes =
      some (.topic kind statement.expression statement.body) := by
  have unterminated := Unterminated.of_guarded [] statement
  have read : Grammar.full.readTopic kind statement.keyword
      (statement.condition.lexemes ++ statement.block.lexemes) =
        (.topic kind statement.expression statement.body, []) := by
    have block (finish : Position) := Grammar.readBlock_braces finish statement.block []
    simp only [List.append_nil] at block
    simp only [Grammar.readTopic, Grammar.readCondition_guarded, block]
    rfl
  have unmodified := (Unmodified.guarded statement).nowhere
  rw [Guarded.lexemes] at unmodified
  rw [parseStatement_eq, Guarded.lexemes, Grammar.readStatement_unmodified unterminated
    (by simp [statement.role]) (.inr unmodified)]
  cases kind <;>
    simp only [Grammar.readSimple, statement.role, Grammar.readReserved, statement.text,
      Topic.keyword, read, Node.finish]

namespace Attempt

theorem splitStatements (statement : Attempt) {rest : List Lexeme}
    (done : ∀ next ∈ rest.head?,
      (statement.final.isNone && Chain.attempt.continuedBy next) = false) :
    splitStatements (statement.lexemes ++ rest) =
      statement.lexemes :: SigilScript.splitStatements rest := by
  have bears : statement.first.keyword.head = .blockBearing .attempt := by
    simp [Lexeme.head, statement.first.role, statement.first.text]
  have begun := Boundary.takes_unguarded statement.first bears (.inr rfl) (by decide)
  have handled : (Boundary.awaitingChain .attempt).Takes
      (statement.handler.elim [] Handling.lexemes) (Boundary.awaitingChain .attempt) := by
    cases statement.handler with
    | none => exact .nil _
    | some handling => exact Boundary.takes_handling handling
  have takes := begun.append handled
  rw [lexemes, ← List.append_assoc]
  exact Boundary.splitStatements_chain (List.cons_ne_nil _ _) takes statement.final
    (fun clause _ => by simp [Chain.continuedBy, clause.role, clause.text])
    (fun clause _ => by simp [Lexeme.closesChain, clause.text]) done

theorem parseStatement (statement : Attempt) :
    parseStatement statement.lexemes = some statement.node := by
  have handled : Unterminated (statement.first.lexemes ++
      statement.handler.elim [] Handling.lexemes) := by
    cases statement.handler with
    | none =>
      rw [Option.elim_none, List.append_nil]
      exact .of_unguarded [] statement.first
    | some handling =>
      rw [Option.elim_some, Handling.lexemes, List.append_cons, ← List.append_assoc]
      exact .of_braces _ handling.block
  have unterminated : Unterminated statement.lexemes := by
    rw [lexemes, ← List.append_assoc]
    exact handled.append_optional _
  have unmodified := (Unmodified.attempt statement).nowhere
  have read := Grammar.readTry_attempt statement
  rw [lexemes, Unguarded.lexemes, List.cons_append] at unterminated unmodified ⊢
  rw [parseStatement_eq, Grammar.readStatement_unmodified unterminated
    (by simp [statement.first.role]) (.inr unmodified)]
  simp only [Grammar.readSimple, statement.first.role, Grammar.readReserved, statement.first.text,
    read, Node.finish]

end Attempt

/-! ## Programs that begin with a compound statement -/

/-- A compound statement is one statement, unless what stands behind it continues it. -/
theorem Compound.splitStatements (compound : Compound) {rest : List Lexeme}
    (done : ∀ next ∈ rest.head?, compound.continuedBy next = false) :
    splitStatements (compound.lexemes ++ rest) =
      compound.lexemes :: SigilScript.splitStatements rest := by
  cases compound with
  | conditional polarity statement => exact statement.splitStatements done
  | loop polarity statement =>
    apply statement.splitStatements _ (.inl rfl)
    cases polarity <;> simp [Lexeme.head, statement.role, statement.text, Polarity.loopKeyword]
  | topic kind statement =>
    apply statement.splitStatements _ (.inr rfl)
    cases kind <;> simp [Lexeme.head, statement.role, statement.text, Topic.keyword]
  | attempt statement => exact statement.splitStatements done

theorem Compound.parseStatement (compound : Compound) :
    parseStatement compound.lexemes = some compound.node := by
  cases compound with
  | conditional polarity statement => exact statement.parseStatement
  | loop polarity statement => exact parseStatement_loop statement
  | topic kind statement => exact parseStatement_topic statement
  | attempt statement => exact statement.parseStatement

/-- A program that begins with a compound statement is parsed as the tree of the statement and
then as what stands behind it, unless that continues the statement. -/
theorem parseItems_compound (compound : Compound) {rest : List Lexeme}
    (done : ∀ next ∈ rest.head?, compound.continuedBy next = false) :
    parseItems ((compound.lexemes ++ rest).map .ok) =
      compound.node :: parseItems (rest.map .ok) := by
  rw [parseItems_ok, compound.splitStatements done,
    List.filterMap_cons_some compound.parseStatement, parseItems_ok]

/-- A conditional with one further condition and empty blocks. -/
def Conditional.twoConditions : Conditional .affirmed where
  first :=
    { keyword := ⟨⟨.identifier, "if", ⟨1, 1⟩⟩, .controlKeyword⟩
      spelled := by decide
      condition := ⟨⟨⟨⟨.openParen, "(", ⟨1, 4⟩⟩, .leftParen⟩, [⟨⟨.number, "1", ⟨1, 5⟩⟩, .literal⟩],
        ⟨⟨.closeParen, ")", ⟨1, 6⟩⟩, .rightParen⟩, rfl, rfl, rfl, .plain rfl rfl .nil⟩,
        List.cons_ne_nil _ _⟩
      block := ⟨⟨⟨.openBrace, "\x7b", ⟨1, 8⟩⟩, .leftBrace⟩, [],
        ⟨⟨.closeBrace, "\x7d", ⟨1, 9⟩⟩, .rightBrace⟩, rfl, rfl, rfl, .nil⟩ }
  further :=
    [{ keyword := ⟨⟨.identifier, "elsif", ⟨2, 1⟩⟩, .controlKeyword⟩
       spelled := by decide
       condition := ⟨⟨⟨⟨.openParen, "(", ⟨2, 7⟩⟩, .leftParen⟩,
         [⟨⟨.number, "2", ⟨2, 8⟩⟩, .literal⟩], ⟨⟨.closeParen, ")", ⟨2, 9⟩⟩, .rightParen⟩, rfl, rfl,
         rfl, .plain rfl rfl .nil⟩, List.cons_ne_nil _ _⟩
       block := ⟨⟨⟨.openBrace, "\x7b", ⟨2, 11⟩⟩, .leftBrace⟩, [],
         ⟨⟨.closeBrace, "\x7d", ⟨2, 12⟩⟩, .rightBrace⟩, rfl, rfl, rfl, .nil⟩ }]
  otherwise := none

/-- The number three on a line of its own. -/
def numberThree : Lexeme := ⟨⟨.number, "3", ⟨3, 1⟩⟩, .literal⟩

/-- A conditional and a number behind it, which does not continue it. -/
theorem parseItems_compound_number :
    (∀ next ∈ [numberThree].head?,
      (Compound.conditional .affirmed .twoConditions).continuedBy next = false) ∧
    parseItems (((Compound.conditional .affirmed .twoConditions).lexemes ++
        [numberThree]).map .ok) =
      .conditional .affirmed (.number "1") [] [⟨.number "2", []⟩] none ::
        parseItems ([numberThree].map .ok) := by
  have done : ∀ next ∈ [numberThree].head?,
      (Compound.conditional .affirmed .twoConditions).continuedBy next = false := by
    intro next member
    obtain rfl := Option.some.inj member
    rfl
  have node : (Compound.conditional .affirmed .twoConditions).node =
      .conditional .affirmed (.number "1") [] [⟨.number "2", []⟩] none := rfl
  refine ⟨done, ?_⟩
  rw [← node]
  exact parseItems_compound _ done

end SigilScript
