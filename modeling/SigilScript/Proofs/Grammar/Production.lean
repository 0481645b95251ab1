import SigilScript.Proofs.Grammar.Complete

/-! # What every production has in common

A production reads on at the place of its cursor, behind the lexeme of its own that it may have
taken, and leaves an end of what it was given. What it reads as a whole, be it the inside of a
group, a block, a branch, an element of a list or a part of a modified statement, is shorter than
what it has: it reads the same with any other grammar that agrees on shorter lists. So the equations
of the productions have one solution, and reading ends on every list.
-/

namespace SigilScript

theorem Attribute.map_moved_id (marks : List Attribute) :
    marks.map (Attribute.moved id) = marks := by
  have same (mark : Attribute) : mark.moved id = mark := by
    rcases mark with ⟨name, _ | args⟩
    · rfl
    · simp only [Attribute.moved, Option.map_some, Lexeme.map_moved_id]
  rw [funext same, List.map_id']

theorem Node.option_moved_id (part : Option Node) : part.map (Node.moved id) = part := by
  rw [funext Node.moved_id, Option.map_id']

namespace Grammar

/-- The productions of expressions, each with the lexeme of its own that it has taken. -/
inductive Production : {α : Type} → List Lexeme → (Grammar → List Lexeme → Parse α) → Prop where
  | whole (anchor : Position) : Production [] fun g rest => (g.readWhole anchor rest, [])
  | operation (level : Nat) (lexeme : Lexeme) :
    Production [lexeme] fun g => g.readOperation level lexeme
  | climb (level : Nat) (left : Node) : Production [] fun g => g.readClimb level left
  | ternary (condition : Node) (question : Lexeme) :
    Production [question] fun g => g.readTernary condition question
  | right (op : Lexeme) (level : Nat) : Production [op] fun g => g.readRight op level
  | operand (lexeme : Lexeme) : Production [lexeme] fun g => g.readOperand lexeme
  | leading (op : Lexeme) : Production [op] fun g => g.readLeading op
  | atom (lexeme : Lexeme) : Production [lexeme] fun g => g.readAtom lexeme
  | primary (lexeme : Lexeme) : Production [lexeme] fun g => g.readPrimary lexeme
  | chain (node : Node) : Production [] fun g => g.readChain node
  | arrow (base : Node) (lexeme : Lexeme) : Production [lexeme] fun g => g.readArrow base lexeme
  | postfixDeref (base : Node) (lexeme : Lexeme) (sigil : Sigil) :
    Production [lexeme] fun g => g.readPostfixDeref base lexeme sigil
  | method (invocant : Node) (name : Lexeme) : Production [name] fun g => g.readMethod invocant name
  | directSubscript (base : Node) (opener : Lexeme) :
    Production [opener] fun g => g.readDirectSubscript base opener
  | items : Production [] readItems
  | groupElements (opener : Lexeme) : Production [opener] fun g => g.readGroupElements opener
  | arguments : Production [] readArguments
  | callArguments : Production [] readCallArguments
  | methodArguments : Production [] readMethodArguments
  | parameters : Production [] readParameters
  | block (finish : Position) : Production [] fun g => g.readBlock finish
  | attributes : Production [] attributes
  | dereference (sigil : Sigil) (lexeme : Lexeme) :
    Production [lexeme] fun g => g.readDereference sigil lexeme
  | declaration (lexeme : Lexeme) : Production [lexeme] fun g => g.readDeclaration lexeme
  | parenthesized (opener : Lexeme) : Production [opener] fun g => g.readParenthesized opener
  | keyword (lexeme : Lexeme) : Production [lexeme] fun g => g.readKeyword lexeme
  | word (name : Lexeme) : Production [name] fun g => g.readWord name
  | builtin (name : Lexeme) : Production [name] fun g => g.readBuiltin name
  | namedOperand : Production [] readNamedOperand
  | leadingBlock (name : Lexeme) : Production [name] fun g => g.readLeadingBlock name
  | call (name : String) : Production [] fun g => g.readCall name
  | anonymousSub (keyword : Lexeme) : Production [keyword] fun g => g.readAnonymousSub keyword
  | require (keyword : Lexeme) : Production [keyword] fun g => g.readRequire keyword
  | filehandle : Production [] readFilehandle
  | output (kind : Output) : Production [] fun g => g.readOutput kind
  | alarm (kind : Alarm) : Production [] fun g => g.readAlarm kind
  | jump (kind : Jump) : Production [] fun _ => readJump kind

/-- The productions of statements, each with the keyword of its own that it has taken. -/
inductive StatementProduction :
    {α : Type} → List Lexeme → (Grammar → List Lexeme → Parse α) → Prop where
  | condition (keyword : Lexeme) : StatementProduction [keyword] fun g => g.readCondition keyword
  | clauses (finish : Position) : StatementProduction [] fun g => g.readClauses finish
  | continuation (finish : Position) (category : Category) (keyword : String) :
    StatementProduction [] fun g => g.readContinuation finish category keyword
  | conditional (polarity : Polarity) (keyword : Lexeme) :
    StatementProduction [keyword] fun g => g.readConditional polarity keyword
  | whileLoop (polarity : Polarity) (keyword : Lexeme) :
    StatementProduction [keyword] fun g => g.readWhile polarity keyword
  | forLoop (keyword : Lexeme) : StatementProduction [keyword] fun g => g.readFor keyword
  | namedSub (keyword : Lexeme) : StatementProduction [keyword] fun g => g.readNamedSub keyword
  | optionalBlock (finish : Position) : StatementProduction [] fun g => g.readOptionalBlock finish
  | classDecl (keyword : Lexeme) : StatementProduction [keyword] fun g => g.readClass keyword
  | fieldDecl (keyword : Lexeme) : StatementProduction [keyword] fun g => g.readField keyword
  | methodDecl (keyword : Lexeme) : StatementProduction [keyword] fun g => g.readMethodDecl keyword
  | packageDecl (keyword : Lexeme) : StatementProduction [keyword] fun g => g.readPackage keyword
  | useDecl (negated : Bool) (keyword : Lexeme) :
    StatementProduction [keyword] fun g => g.readUse negated keyword
  | handler (finish : Position) : StatementProduction [] fun g => g.readHandler finish
  | tryBlock (keyword : Lexeme) : StatementProduction [keyword] fun g => g.readTry keyword
  | topic (kind : Topic) (keyword : Lexeme) :
    StatementProduction [keyword] fun g => g.readTopic kind keyword
  | phaseBlock (phase : Lexeme) : StatementProduction [phase] fun g => g.readPhaseBlock phase

/-! ## What a production leaves -/

namespace Consumes

variable {g : Grammar} (c : g.Consumes)
include c

omit c in
/-- A condition and its block. -/
theorem conditioned (finish : Position) (keyword : Lexeme) (rest : List Lexeme) :
    (g.readBlock finish (g.readCondition keyword rest).2).2 <:+ rest :=
  (readBlock finish _).trans (readCondition keyword rest)

omit c in
theorem readContinuation (finish : Position) (category : Category) (keyword : String)
    (rest : List Lexeme) : (g.readContinuation finish category keyword rest).2 <:+ rest := by
  cases rest with
  | nil => exact List.suffix_refl _
  | cons next rest =>
    simp only [Grammar.readContinuation]
    split
    · exact (readBlock finish rest).trans (List.suffix_cons ..)
    · exact List.suffix_refl _

theorem readConditional (polarity : Polarity) (keyword : Lexeme) (rest : List Lexeme) :
    (g.readConditional polarity keyword rest).2 <:+ rest :=
  (readContinuation _ _ _ _).trans ((c.readClauses _ _).trans (conditioned _ keyword rest))

omit c in
theorem readFor (keyword : Lexeme) (rest : List Lexeme) : (g.readFor keyword rest).2 <:+ rest := by
  have body : (g.readBlock (lastPosition keyword rest) (readLoopGroup keyword
      (readLoopHolder (readLoopDeclarator rest).2).2).2).2 <:+ rest :=
    (readBlock _ _).trans ((readLoopGroup_suffix keyword _).trans (readLoopHead_suffix rest))
  rw [readFor_eq]
  dsimp only
  split
  · exact body
  · split
    · split <;> exact body
    · exact body

theorem readNamedSub (keyword : Lexeme) (rest : List Lexeme) :
    (g.readNamedSub keyword rest).2 <:+ rest := by
  simp only [Grammar.readNamedSub]
  split
  · exact List.suffix_refl _
  · next name behind named =>
    split
    · exact List.nil_suffix
    · exact (readBlock _ _).trans ((c.attributes _).trans
        ((readParameters behind).trans (readName_suffix named)))

omit c in
theorem readOptionalBlock (finish : Position) (rest : List Lexeme) :
    (g.readOptionalBlock finish rest).2 <:+ rest := by
  simp only [Grammar.readOptionalBlock]
  split
  · exact readBlock finish rest
  · exact List.suffix_refl _

theorem readClass (keyword : Lexeme) (rest : List Lexeme) :
    (g.readClass keyword rest).2 <:+ rest := by
  simp only [Grammar.readClass]
  split
  · exact List.suffix_refl _
  · next name behind named =>
    exact (readOptionalBlock _ _).trans ((c.attributes _).trans
      ((readVersion_suffix behind).trans (readName_suffix named)))

theorem readField (keyword : Lexeme) (rest : List Lexeme) :
    (g.readField keyword rest).2 <:+ rest := by
  simp only [Grammar.readField]
  split
  · exact List.suffix_refl _
  · have marks := (c.attributes rest.tail).trans (List.tail_suffix rest)
    split
    · exact List.nil_suffix
    · next op value same =>
      rw [same] at marks
      split
      · exact List.nil_suffix
      · exact marks

theorem readMethodDecl (keyword : Lexeme) (rest : List Lexeme) :
    (g.readMethodDecl keyword rest).2 <:+ rest := by
  simp only [Grammar.readMethodDecl]
  split
  · exact List.suffix_refl _
  · next name behind named =>
    exact (readBlock _ _).trans ((c.attributes _).trans
      ((readParameters behind).trans (readName_suffix named)))

omit c in
theorem readPackage (keyword : Lexeme) (rest : List Lexeme) :
    (g.readPackage keyword rest).2 <:+ rest := by
  simp only [Grammar.readPackage]
  split
  · exact List.suffix_refl _
  · next name behind named =>
    exact (readOptionalBlock _ _).trans
      ((readVersion_suffix behind).trans (readName_suffix named))

omit c in
theorem readUse (negated : Bool) (keyword : Lexeme) (rest : List Lexeme) :
    (g.readUse negated keyword rest).2 <:+ rest := by
  have versioned := readVersion_suffix rest
  simp only [Grammar.readUse]
  split
  · next version behind same =>
    rwa [same] at versioned
  · next behind same =>
    rw [same] at versioned
    split
    · exact versioned
    · exact List.nil_suffix

omit c in
theorem readTry (keyword : Lexeme) (rest : List Lexeme) : (g.readTry keyword rest).2 <:+ rest :=
  (readContinuation _ _ _ _).trans ((readHandler_suffix g _ _).trans (readBlock _ rest))

end Consumes

/-- A production leaves an end of what stands behind its own lexeme. -/
theorem Production.suffix {α : Type} {own : List Lexeme} {read : Grammar → List Lexeme → Parse α}
    (production : Production own read) (rest : List Lexeme) : (read full rest).2 <:+ rest := by
  have c := consumes_full
  cases production with
  | whole => exact List.nil_suffix
  | operation => exact c.readOperation _ _ rest
  | climb => exact c.readClimb _ _ rest
  | ternary => exact c.readTernary _ _ rest
  | right => exact c.readRight _ _ rest
  | operand => exact c.readOperand _ rest
  | leading => exact c.readLeading _ rest
  | atom => exact c.readAtom _ rest
  | primary => exact c.readPrimary _ rest
  | chain => exact c.readChain _ rest
  | arrow => exact Consumes.readArrow _ _ rest
  | postfixDeref => exact Consumes.readPostfixDeref _ _ _ rest
  | method => exact Consumes.readMethodArguments rest
  | directSubscript => exact readGroup_suffix ..
  | items => exact c.readItems rest
  | groupElements => exact readGroup_suffix ..
  | arguments => exact c.readArguments rest
  | callArguments => exact c.readCallArguments rest
  | methodArguments => exact Consumes.readMethodArguments rest
  | parameters => exact Consumes.readParameters rest
  | block => exact Consumes.readBlock _ rest
  | attributes => exact c.attributes rest
  | dereference => exact c.readDereference _ _ rest
  | declaration => exact c.readDeclaration _ rest
  | parenthesized => exact readGroup_suffix ..
  | keyword => exact c.readKeyword _ rest
  | word => exact c.readWord _ rest
  | builtin => exact c.readBuiltin _ rest
  | namedOperand => exact c.readNamedOperand rest
  | leadingBlock => exact Consumes.readLeadingBlock _ rest
  | call => exact c.readCall _ rest
  | anonymousSub => exact c.readAnonymousSub _ rest
  | require => exact c.readRequire _ rest
  | filehandle => exact Consumes.readFilehandle rest
  | output => exact c.readOutput _ rest
  | alarm => exact c.readCallArguments rest
  | jump => exact readJump_suffix _ rest

/-- A production of statements leaves an end of what stands behind its own keyword. -/
theorem StatementProduction.suffix {α : Type} {own : List Lexeme}
    {read : Grammar → List Lexeme → Parse α} (production : StatementProduction own read)
    (rest : List Lexeme) : (read full rest).2 <:+ rest := by
  have c := consumes_full
  cases production with
  | condition => exact Consumes.readCondition _ rest
  | clauses => exact c.readClauses _ rest
  | continuation => exact Consumes.readContinuation _ _ _ rest
  | conditional => exact c.readConditional _ _ rest
  | whileLoop => exact Consumes.conditioned _ _ rest
  | forLoop => exact Consumes.readFor _ rest
  | namedSub => exact c.readNamedSub _ rest
  | optionalBlock => exact Consumes.readOptionalBlock _ rest
  | classDecl => exact c.readClass _ rest
  | fieldDecl => exact c.readField _ rest
  | methodDecl => exact c.readMethodDecl _ rest
  | packageDecl => exact Consumes.readPackage _ rest
  | useDecl => exact Consumes.readUse _ _ rest
  | handler => exact readHandler_suffix full _ rest
  | tryBlock => exact Consumes.readTry _ rest
  | topic => exact Consumes.conditioned _ _ rest
  | phaseBlock => exact Consumes.readBlock _ rest

/-! ## What a production asks for -/

/-- Two grammars read alike what is shorter than `n`; a production that has taken a lexeme of its
own is asked for what stands behind it. -/
structure AgreeBelow (n : Nat) (g h : Grammar) : Prop where
  whole : ∀ anchor rest, rest.length < n → g.whole anchor rest = h.whole anchor rest
  operation : ∀ level lexeme rest, rest.length < n →
    g.operation level lexeme rest = h.operation level lexeme rest
  climb : ∀ level node rest, rest.length < n → g.climb level node rest = h.climb level node rest
  operand : ∀ lexeme rest, rest.length < n → g.operand lexeme rest = h.operand lexeme rest
  primary : ∀ lexeme rest, rest.length < n → g.primary lexeme rest = h.primary lexeme rest
  chain : ∀ node rest, rest.length < n → g.chain node rest = h.chain node rest
  items : ∀ rest, rest.length < n → g.items rest = h.items rest
  arguments : ∀ rest, rest.length < n → g.arguments rest = h.arguments rest
  attributes : ∀ rest, g.attributes rest = h.attributes rest
  clauses : ∀ finish rest, rest.length < n → g.clauses finish rest = h.clauses finish rest
  statements : ∀ rest, rest.length < n → g.statements rest = h.statements rest

variable {n : Nat} {g h : Grammar}

/-- To agree with a grammar is to follow it under the move that changes no place. -/
theorem AgreeBelow.follows (agree : AgreeBelow n g h) : Follows id n g h where
  whole anchor rest short := by
    rw [Lexeme.map_moved_id, Node.moved_id]
    exact agree.whole anchor rest short
  operation level lexeme rest short := by
    rw [Lexeme.map_moved_id, Parse.moved_id Node.moved_id]
    exact agree.operation level lexeme rest short
  climb level node rest short := by
    rw [Lexeme.map_moved_id, Node.moved_id, Parse.moved_id Node.moved_id]
    exact agree.climb level node rest short
  operand lexeme rest short := by
    rw [Lexeme.map_moved_id, Parse.moved_id Node.moved_id]
    exact agree.operand lexeme rest short
  primary lexeme rest short := by
    rw [Lexeme.map_moved_id, Parse.moved_id Node.moved_id]
    exact agree.primary lexeme rest short
  chain node rest short := by
    rw [Lexeme.map_moved_id, Node.moved_id, Parse.moved_id Node.moved_id]
    exact agree.chain node rest short
  items rest short := by
    rw [Lexeme.map_moved_id, Parse.moved_id Node.map_moved_id]
    exact agree.items rest short
  arguments rest short := by
    rw [Lexeme.map_moved_id, Parse.moved_id Node.map_moved_id]
    exact agree.arguments rest short
  attributes rest := by
    rw [Lexeme.map_moved_id, Parse.moved_id Attribute.map_moved_id]
    exact agree.attributes rest
  clauses finish rest short := by
    rw [Lexeme.map_moved_id, Parse.moved_id Clause.map_moved_id]
    exact agree.clauses finish rest short
  statements rest short := by
    rw [Lexeme.map_moved_id, Node.map_moved_id]
    exact agree.statements rest short

theorem Follows.agreeBelow (follows : Follows id n g h) : AgreeBelow n g h where
  whole anchor rest short := by
    have same := follows.whole anchor rest short
    rwa [Lexeme.map_moved_id, Node.moved_id] at same
  operation level lexeme rest short := by
    have same := follows.operation level lexeme rest short
    rwa [Lexeme.map_moved_id, Parse.moved_id Node.moved_id] at same
  climb level node rest short := by
    have same := follows.climb level node rest short
    rwa [Lexeme.map_moved_id, Node.moved_id, Parse.moved_id Node.moved_id] at same
  operand lexeme rest short := by
    have same := follows.operand lexeme rest short
    rwa [Lexeme.map_moved_id, Parse.moved_id Node.moved_id] at same
  primary lexeme rest short := by
    have same := follows.primary lexeme rest short
    rwa [Lexeme.map_moved_id, Parse.moved_id Node.moved_id] at same
  chain node rest short := by
    have same := follows.chain node rest short
    rwa [Lexeme.map_moved_id, Node.moved_id, Parse.moved_id Node.moved_id] at same
  items rest short := by
    have same := follows.items rest short
    rwa [Lexeme.map_moved_id, Parse.moved_id Node.map_moved_id] at same
  arguments rest short := by
    have same := follows.arguments rest short
    rwa [Lexeme.map_moved_id, Parse.moved_id Node.map_moved_id] at same
  attributes rest := by
    have same := follows.attributes rest
    rwa [Lexeme.map_moved_id, Parse.moved_id Attribute.map_moved_id] at same
  clauses finish rest short := by
    have same := follows.clauses finish rest short
    rwa [Lexeme.map_moved_id, Parse.moved_id Clause.map_moved_id] at same
  statements rest short := by
    have same := follows.statements rest short
    rwa [Lexeme.map_moved_id, Node.map_moved_id] at same

/-- What follows under the move that changes no place is the same. -/
theorem eq_of_moved {α : Type} {tree : α → α} (same : ∀ value, tree value = value)
    {read : List Lexeme → Parse α} {rest : List Lexeme} {parse : Parse α}
    (follows : read (rest.map (Lexeme.moved id)) = parse.moved tree id) : read rest = parse := by
  rwa [Lexeme.map_moved_id, Parse.moved_id same] at follows

/-- A production reads alike with every grammar that agrees with the complete one on what is shorter
than the production's own list. -/
theorem Production.alike {α : Type} {own : List Lexeme} {read : Grammar → List Lexeme → Parse α}
    (production : Production own read) {rest : List Lexeme}
    (agree : AgreeBelow (own ++ rest).length g full) : read g rest = read full rest := by
  have c := consumes_full
  have f := agree.follows
  cases production with
  | whole anchor =>
    have same := f.readWhole c anchor rest (Nat.le_refl _)
    rw [Lexeme.map_moved_id, Node.moved_id] at same
    exact Prod.ext same rfl
  | operation level lexeme =>
    exact eq_of_moved Node.moved_id (f.readOperation c level lexeme rest (Nat.le_succ _))
  | climb level left =>
    have same := f.readClimb c level left rest (Nat.le_refl _)
    rw [Node.moved_id] at same
    exact eq_of_moved Node.moved_id same
  | ternary condition question =>
    have same := f.readTernary condition question rest (Nat.lt_succ_self _)
    rw [Node.moved_id] at same
    exact eq_of_moved Node.moved_id same
  | right op level =>
    exact eq_of_moved Node.moved_id (f.readRight op level rest (Nat.le_succ _))
  | operand lexeme =>
    exact eq_of_moved Node.moved_id (f.readOperand c lexeme rest (Nat.le_succ _))
  | leading op =>
    exact eq_of_moved Node.moved_id (f.readLeading op rest (Nat.le_succ _))
  | atom lexeme =>
    exact eq_of_moved Node.moved_id (f.readAtom c lexeme rest (Nat.le_succ _))
  | primary lexeme =>
    exact eq_of_moved Node.moved_id (f.readPrimary c lexeme rest (Nat.le_succ _))
  | chain node =>
    have same := f.readChain node rest (Nat.le_refl _)
    rw [Node.moved_id] at same
    exact eq_of_moved Node.moved_id same
  | arrow base lexeme =>
    have same := f.readArrow base lexeme rest (Nat.le_succ _)
    rw [Node.moved_id] at same
    exact eq_of_moved Node.moved_id same
  | postfixDeref base lexeme sigil =>
    have same := f.readPostfixDeref base lexeme sigil rest (Nat.le_succ _)
    rw [Node.moved_id] at same
    exact eq_of_moved Node.moved_id same
  | method invocant name =>
    have same := f.readMethod invocant name rest (Nat.le_succ _)
    rw [Node.moved_id] at same
    exact eq_of_moved Node.moved_id same
  | directSubscript base opener =>
    have same := f.readDirectSubscript base opener rest (Nat.le_succ _)
    rw [Node.moved_id] at same
    exact eq_of_moved Node.moved_id same
  | items =>
    exact eq_of_moved Node.map_moved_id (f.readItems c rest (Nat.le_refl _))
  | groupElements opener =>
    exact eq_of_moved Node.map_moved_id (f.readGroupElements opener rest (Nat.le_succ _))
  | arguments =>
    exact eq_of_moved Node.map_moved_id (f.readArguments c rest (Nat.le_refl _))
  | callArguments =>
    exact eq_of_moved Node.map_moved_id (f.readCallArguments c rest (Nat.le_refl _))
  | methodArguments =>
    exact eq_of_moved Node.map_moved_id (f.readMethodArguments rest (Nat.le_refl _))
  | parameters =>
    exact eq_of_moved Node.map_moved_id (f.readParameters rest (Nat.le_refl _))
  | block finish =>
    exact eq_of_moved Node.map_moved_id (f.readBlock finish rest (Nat.le_refl _))
  | attributes =>
    exact eq_of_moved Attribute.map_moved_id (f.attributes rest)
  | dereference sigil lexeme =>
    exact eq_of_moved Node.moved_id (f.readDereference sigil lexeme rest (Nat.le_succ _))
  | declaration lexeme =>
    exact eq_of_moved Node.moved_id (f.readDeclaration c lexeme rest (Nat.le_succ _))
  | parenthesized opener =>
    exact eq_of_moved Node.moved_id (f.readParenthesized opener rest (Nat.le_succ _))
  | keyword lexeme =>
    exact eq_of_moved Node.moved_id (f.readKeyword c lexeme rest (Nat.le_succ _))
  | word name =>
    exact eq_of_moved Node.moved_id (f.readWord c name rest (Nat.le_succ _))
  | builtin name =>
    exact eq_of_moved Node.moved_id (f.readBuiltin c name rest (Nat.le_succ _))
  | namedOperand =>
    exact eq_of_moved Node.map_moved_id (f.readNamedOperand rest (Nat.le_refl _))
  | leadingBlock name =>
    exact eq_of_moved Node.map_moved_id (f.readLeadingBlock name rest (Nat.le_succ _))
  | call name =>
    exact eq_of_moved Node.moved_id (f.readCall c name rest (Nat.le_refl _))
  | anonymousSub keyword =>
    exact eq_of_moved Node.moved_id (f.readAnonymousSub c keyword rest (Nat.le_succ _))
  | require keyword =>
    exact eq_of_moved Node.moved_id (f.readRequire keyword rest (Nat.le_succ _))
  | filehandle =>
    exact eq_of_moved Node.option_moved_id (f.readFilehandle rest (Nat.le_refl _))
  | output kind =>
    exact eq_of_moved Node.moved_id (f.readOutput c kind rest (Nat.le_refl _))
  | alarm kind =>
    exact eq_of_moved Node.moved_id (f.readAlarm c kind rest (Nat.le_refl _))
  | jump => rfl

/-- Two grammars start reading alike what is shorter than `n`, as one expression or as statements.
How they read on at the place of a cursor is left open, but for attributes and for the further
conditions of a conditional. -/
structure StartAlike (n : Nat) (g h : Grammar) : Prop where
  whole : ∀ anchor part, part.length < n → g.whole anchor part = h.whole anchor part
  expression : ∀ anchor part, part.length < n → g.readWhole anchor part = h.readWhole anchor part
  statements : ∀ part, part.length < n → g.statements part = h.statements part
  attributes : ∀ rest, g.attributes rest = h.attributes rest
  clauses : ∀ finish rest, g.clauses finish rest = h.clauses finish rest

theorem readGroup_congr {α : Type} (opener : Lexeme) (rest : List Lexeme)
    {inside inside' : List Lexeme → α} (unclosed : SyntaxFault → α)
    (same : ∀ inner, inner.length < rest.length → inside inner = inside' inner) :
    readGroup opener rest inside unclosed = readGroup opener rest inside' unclosed := by
  simp only [readGroup]
  split
  · next inner after taken => rw [same inner (takeGroup_length taken)]
  · rfl

theorem readName_length {wanted : Construct} {anchor : Position} {rest after : List Lexeme}
    {name : String} (read : readName wanted anchor rest = .ok (name, after)) :
    after.length < rest.length := by
  obtain ⟨word, -, rfl⟩ := readName_of_ok read
  exact Nat.lt_succ_self _

namespace StartAlike

variable (alike : StartAlike n g h)
include alike

theorem readBlock (finish : Position) {rest : List Lexeme} (short : rest.length ≤ n) :
    g.readBlock finish rest = h.readBlock finish rest := by
  cases rest with
  | nil => rfl
  | cons opener rest =>
    simp only [Grammar.readBlock]
    split
    · exact readGroup_congr opener rest _ fun inner within =>
        alike.statements inner (Nat.lt_trans within short)
    · rfl

theorem readDefault (anchor : Position) {segment : List Lexeme} (short : segment.length ≤ n) :
    g.readDefault anchor segment = h.readDefault anchor segment := by
  cases segment with
  | nil => rfl
  | cons op value => simp only [Grammar.readDefault, alike.whole op.position value short]

theorem readParameter (anchor : Position) {segment : List Lexeme} (short : segment.length ≤ n) :
    g.readParameter anchor segment = h.readParameter anchor segment := by
  have tail : segment.tail.length ≤ n := Nat.le_trans (List.tail_suffix _).length_le short
  simp only [Grammar.readParameter, alike.readDefault anchor tail]

theorem readParameters {rest : List Lexeme} (short : rest.length ≤ n) :
    g.readParameters rest = h.readParameters rest := by
  cases rest with
  | nil => rfl
  | cons opener rest =>
    simp only [Grammar.readParameters]
    split
    · refine readGroup_congr opener rest _ fun inner within => List.map_congr_left ?_
      intro segment member
      have part := splitTopLevel_length (List.mem_of_mem_filter member)
      exact alike.readParameter opener.position
        (Nat.le_trans part (Nat.le_of_lt (Nat.lt_trans within short)))
    · rfl

theorem readCondition (keyword : Lexeme) {rest : List Lexeme} (short : rest.length ≤ n) :
    g.readCondition keyword rest = h.readCondition keyword rest := by
  cases rest with
  | nil => rfl
  | cons opener rest =>
    simp only [Grammar.readCondition]
    split
    · refine readGroup_congr opener rest _ fun inner within => ?_
      rw [alike.expression opener.position inner (Nat.lt_trans within short)]
    · rfl

/-- A condition and its block. -/
theorem conditioned (finish : Position) (keyword : Lexeme) {rest : List Lexeme}
    (short : rest.length ≤ n) :
    g.readCondition keyword rest = h.readCondition keyword rest ∧
      g.readBlock finish (h.readCondition keyword rest).2 =
        h.readBlock finish (h.readCondition keyword rest).2 :=
  ⟨alike.readCondition keyword short, alike.readBlock finish
    (Nat.le_trans (Consumes.readCondition keyword rest).length_le short)⟩

theorem readClauses (finish : Position) {rest : List Lexeme} (short : rest.length ≤ n) :
    g.readClauses finish rest = h.readClauses finish rest := by
  cases rest with
  | nil => rfl
  | cons keyword rest =>
    obtain ⟨condition, body⟩ := alike.conditioned finish keyword (Nat.le_of_succ_le short)
    simp only [Grammar.readClauses, condition, body, alike.clauses]

theorem readContinuation (finish : Position) (category : Category) (keyword : String)
    {rest : List Lexeme} (short : rest.length ≤ n) :
    g.readContinuation finish category keyword rest =
      h.readContinuation finish category keyword rest := by
  cases rest with
  | nil => rfl
  | cons next rest =>
    simp only [Grammar.readContinuation, alike.readBlock finish (Nat.le_of_succ_le short)]

theorem readConditional (c : h.Consumes) (polarity : Polarity) (keyword : Lexeme)
    {rest : List Lexeme} (short : rest.length ≤ n) :
    g.readConditional polarity keyword rest = h.readConditional polarity keyword rest := by
  obtain ⟨condition, body⟩ := alike.conditioned (lastPosition keyword rest) keyword short
  have behindBody : (h.readBlock (lastPosition keyword rest) (h.readCondition keyword rest).2).2 <:+
      rest := Consumes.conditioned (lastPosition keyword rest) keyword rest
  have clauses := alike.readClauses (lastPosition keyword rest)
    (Nat.le_trans behindBody.length_le short)
  have behindClauses := (c.readClauses (lastPosition keyword rest) _).trans behindBody
  have otherwise := alike.readContinuation (lastPosition keyword rest) .controlKeyword "else"
    (Nat.le_trans behindClauses.length_le short)
  simp only [Grammar.readConditional, condition, body, clauses, otherwise]

theorem readWhile (polarity : Polarity) (keyword : Lexeme) {rest : List Lexeme}
    (short : rest.length ≤ n) :
    g.readWhile polarity keyword rest = h.readWhile polarity keyword rest := by
  obtain ⟨condition, body⟩ := alike.conditioned (lastPosition keyword rest) keyword short
  simp only [Grammar.readWhile, condition, body]

theorem readTopic (kind : Topic) (keyword : Lexeme) {rest : List Lexeme}
    (short : rest.length ≤ n) : g.readTopic kind keyword rest = h.readTopic kind keyword rest := by
  obtain ⟨condition, body⟩ := alike.conditioned (lastPosition keyword rest) keyword short
  simp only [Grammar.readTopic, condition, body]

theorem readPhaseBlock (phase : Lexeme) {rest : List Lexeme} (short : rest.length ≤ n) :
    g.readPhaseBlock phase rest = h.readPhaseBlock phase rest := by
  simp only [Grammar.readPhaseBlock, alike.readBlock (lastPosition phase rest) short]

theorem readLoopClause (keyword : Lexeme) {part : List Lexeme} (short : part.length < n) :
    g.readLoopClause keyword part = h.readLoopClause keyword part := by
  simp only [Grammar.readLoopClause, alike.expression keyword.position part short]

theorem readFor (keyword : Lexeme) {rest : List Lexeme} (short : rest.length ≤ n) :
    g.readFor keyword rest = h.readFor keyword rest := by
  have held := readLoopHead_suffix rest
  have grouped :=
    (readLoopGroup_suffix keyword (readLoopHolder (readLoopDeclarator rest).2).2).trans
    held
  have body := alike.readBlock (lastPosition keyword rest) (Nat.le_trans grouped.length_le short)
  rw [readFor_eq, readFor_eq]
  dsimp only
  rw [body]
  split
  · rfl
  · next inner read =>
    have within : inner.length < n :=
      Nat.lt_of_lt_of_le (readLoopGroup_length (Prod.ext read rfl))
        (Nat.le_trans held.length_le short)
    have clause (part : List Lexeme) (member : part ∈ splitTopLevel inner .terminator) :
        g.readLoopClause keyword part = h.readLoopClause keyword part :=
      alike.readLoopClause keyword (Nat.lt_of_le_of_lt (splitTopLevel_length member) within)
    rw [alike.expression keyword.position inner within]
    split
    · split
      · next init condition step split =>
        rw [split] at clause
        rw [clause init (by simp), clause condition (by simp), clause step (by simp)]
      · rfl
    · rfl

theorem readOptionalBlock (finish : Position) {rest : List Lexeme} (short : rest.length ≤ n) :
    g.readOptionalBlock finish rest = h.readOptionalBlock finish rest := by
  simp only [Grammar.readOptionalBlock, alike.readBlock finish short]

/-- A signature, and the block behind its attributes. -/
theorem signed (c : h.Consumes) (finish : Position) {rest : List Lexeme}
    (short : rest.length ≤ n) :
    g.readParameters rest = h.readParameters rest ∧
      g.readBlock finish (h.attributes (h.readParameters rest).2).2 =
        h.readBlock finish (h.attributes (h.readParameters rest).2).2 := by
  have marks := (c.attributes (h.readParameters rest).2).trans (Consumes.readParameters rest)
  exact ⟨alike.readParameters short, alike.readBlock finish (Nat.le_trans marks.length_le short)⟩

theorem readNamedSub (c : h.Consumes) (keyword : Lexeme) {rest : List Lexeme}
    (short : rest.length ≤ n) : g.readNamedSub keyword rest = h.readNamedSub keyword rest := by
  simp only [Grammar.readNamedSub, alike.attributes]
  split
  · rfl
  · next name behind named =>
    obtain ⟨params, body⟩ := alike.signed c (lastPosition keyword rest)
      (Nat.le_trans (readName_suffix named).length_le short)
    rw [params, body]

theorem readClass (c : h.Consumes) (keyword : Lexeme) {rest : List Lexeme}
    (short : rest.length ≤ n) : g.readClass keyword rest = h.readClass keyword rest := by
  simp only [Grammar.readClass, alike.attributes]
  split
  · rfl
  · next name behind named =>
    have marks := (c.attributes (readVersion behind).2).trans
      ((readVersion_suffix behind).trans (readName_suffix named))
    rw [alike.readOptionalBlock _ (Nat.le_trans marks.length_le short)]

theorem readField (c : h.Consumes) (keyword : Lexeme) {rest : List Lexeme}
    (short : rest.length ≤ n) : g.readField keyword rest = h.readField keyword rest := by
  have marks := (c.attributes rest.tail).trans (List.tail_suffix rest)
  unfold Grammar.readField
  rw [alike.attributes]
  generalize h.attributes rest.tail = read at marks ⊢
  rcases read with ⟨names, _ | ⟨op, value⟩⟩
  · rfl
  · have within : value.length < n := Nat.lt_of_lt_of_le marks.length_le short
    dsimp only
    rw [alike.expression op.position value within]

theorem readMethodDecl (c : h.Consumes) (keyword : Lexeme) {rest : List Lexeme}
    (short : rest.length ≤ n) : g.readMethodDecl keyword rest = h.readMethodDecl keyword rest := by
  simp only [Grammar.readMethodDecl, alike.attributes]
  split
  · rfl
  · next name behind named =>
    obtain ⟨params, body⟩ := alike.signed c (lastPosition keyword rest)
      (Nat.le_trans (readName_suffix named).length_le short)
    rw [params, body]

theorem readPackage (keyword : Lexeme) {rest : List Lexeme} (short : rest.length ≤ n) :
    g.readPackage keyword rest = h.readPackage keyword rest := by
  simp only [Grammar.readPackage]
  split
  · rfl
  · next name behind named =>
    have versioned := (readVersion_suffix behind).trans (readName_suffix named)
    rw [alike.readOptionalBlock _ (Nat.le_trans versioned.length_le short)]

theorem readUse (negated : Bool) (keyword : Lexeme) {rest : List Lexeme}
    (short : rest.length ≤ n) :
    g.readUse negated keyword rest = h.readUse negated keyword rest := by
  simp only [Grammar.readUse]
  split
  · rfl
  · next behind versioned =>
    split
    · rfl
    · next name after named =>
      -- What is imported stands behind the name.
      have imported {left : List Lexeme} (suffix : left <:+ after) :
          g.readWhole keyword.position left = h.readWhole keyword.position left := by
        have names := readName_length named
        have versions := (readVersion_suffix rest).length_le
        rw [versioned] at versions
        have part := suffix.length_le
        exact alike.expression keyword.position left (by dsimp only at versions; omega)
      split
      · rw [imported (List.suffix_refl after)]
      · rw [imported (readVersion_suffix after)]

theorem readHandler (finish : Position) {rest : List Lexeme} (short : rest.length ≤ n) :
    g.readHandler finish rest = h.readHandler finish rest := by
  rcases rest with _ | ⟨keyword, _ | ⟨opener, after⟩⟩
  · rfl
  · have none : g.readBlock finish [] = h.readBlock finish [] :=
      alike.readBlock finish (Nat.zero_le n)
    simp only [Grammar.readHandler, none]
  · have group : (readGroup opener after (fun lexemes => some (handlerVariable opener lexemes))
        fun fault => some (.error fault)).2.length ≤ n :=
      Nat.le_trans (readGroup_suffix ..).length_le (by simp at short; omega)
    have bare : (opener :: after).length ≤ n := Nat.le_of_succ_le short
    simp only [Grammar.readHandler]
    split
    · split
      · rw [alike.readBlock finish group]
      · rw [alike.readBlock finish bare]
    · rfl

theorem readTry (keyword : Lexeme) {rest : List Lexeme} (short : rest.length ≤ n) :
    g.readTry keyword rest = h.readTry keyword rest := by
  have body : (h.readBlock (lastPosition keyword rest) rest).2 <:+ rest :=
    Consumes.readBlock (lastPosition keyword rest) rest
  have handler := (readHandler_suffix h (lastPosition keyword rest) _).trans body
  simp only [Grammar.readTry, alike.readBlock _ short,
    alike.readHandler _ (Nat.le_trans body.length_le short),
    alike.readContinuation _ _ _ (Nat.le_trans handler.length_le short)]

end StartAlike

/-- A production of statements reads alike with every grammar that starts reading alike what is
shorter than the production's own list. -/
theorem StatementProduction.alike {α : Type} {own : List Lexeme}
    {read : Grammar → List Lexeme → Parse α} (production : StatementProduction own read)
    {rest : List Lexeme} (alike : StartAlike (own ++ rest).length g full) :
    read g rest = read full rest := by
  have c := consumes_full
  cases production with
  | condition keyword => exact alike.readCondition keyword (Nat.le_succ _)
  | clauses finish => exact alike.readClauses finish (Nat.le_refl _)
  | continuation finish category keyword =>
    exact alike.readContinuation finish category keyword (Nat.le_refl _)
  | conditional polarity keyword => exact alike.readConditional c polarity keyword (Nat.le_succ _)
  | whileLoop polarity keyword => exact alike.readWhile polarity keyword (Nat.le_succ _)
  | forLoop keyword => exact alike.readFor keyword (Nat.le_succ _)
  | namedSub keyword => exact alike.readNamedSub c keyword (Nat.le_succ _)
  | optionalBlock finish => exact alike.readOptionalBlock finish (Nat.le_refl _)
  | classDecl keyword => exact alike.readClass c keyword (Nat.le_succ _)
  | fieldDecl keyword => exact alike.readField c keyword (Nat.le_succ _)
  | methodDecl keyword => exact alike.readMethodDecl c keyword (Nat.le_succ _)
  | packageDecl keyword => exact alike.readPackage keyword (Nat.le_succ _)
  | useDecl negated keyword => exact alike.readUse negated keyword (Nat.le_succ _)
  | handler finish => exact alike.readHandler finish (Nat.le_refl _)
  | tryBlock keyword => exact alike.readTry keyword (Nat.le_succ _)
  | topic kind keyword => exact alike.readTopic kind keyword (Nat.le_succ _)
  | phaseBlock phase => exact alike.readPhaseBlock phase (Nat.le_succ _)

/-! ## The one solution -/

/-- A grammar that agrees with the complete one on short lists agrees with it, one step further, on
lists that are one lexeme longer. -/
theorem AgreeBelow.step (agree : AgreeBelow n g full) : AgreeBelow (n + 1) g.step full := by
  have further := (agree.follows.step consumes_full).agreeBelow
  rwa [step_full] at further

theorem agreeBelow_of_step_eq (solves : g.step = g) (attributes : g.attributes = readAttributes)
    (n : Nat) : AgreeBelow n g full := by
  induction n with
  | zero =>
    constructor <;> intros <;> try contradiction
    rw [attributes]
    rfl
  | succ n ih =>
    have further := ih.step
    rwa [solves] at further

/-- The complete grammar is the only one that is its own next step. -/
theorem eq_full_of_step_eq (solves : g.step = g) (attributes : g.attributes = readAttributes) :
    g = full := by
  have agree := agreeBelow_of_step_eq solves attributes
  rcases g with ⟨whole, operation, climb, operand, primary, chain, items, arguments, marks, clauses,
    statements⟩
  obtain rfl : marks = readAttributes := attributes
  congr
  · funext anchor rest
    exact (agree _).whole anchor rest (Nat.lt_succ_self _)
  · funext level lexeme rest
    exact (agree _).operation level lexeme rest (Nat.lt_succ_self _)
  · funext level node rest
    exact (agree _).climb level node rest (Nat.lt_succ_self _)
  · funext lexeme rest
    exact (agree _).operand lexeme rest (Nat.lt_succ_self _)
  · funext lexeme rest
    exact (agree _).primary lexeme rest (Nat.lt_succ_self _)
  · funext node rest
    exact (agree _).chain node rest (Nat.lt_succ_self _)
  · funext rest
    exact (agree _).items rest (Nat.lt_succ_self _)
  · funext rest
    exact (agree _).arguments rest (Nat.lt_succ_self _)
  · funext finish rest
    exact (agree _).clauses finish rest (Nat.lt_succ_self _)
  · funext rest
    exact (agree _).statements rest (Nat.lt_succ_self _)

end Grammar

end SigilScript
