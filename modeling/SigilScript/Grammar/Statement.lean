import SigilScript.Boundary
import SigilScript.Grammar.Expression

/-! # Statements

A statement is told by its first lexeme: a conditional, a loop, a declaration of a name, a block,
or an expression. A keyword inside an expression statement turns it into a conditional or a loop
around what stands before the keyword. Every production takes the lexemes of its statement, and
what it leaves over is a fault.
-/

namespace SigilScript

namespace Grammar

/-- An assignment to a declaration is the declaration with its initializer. -/
def foldDeclaration (node : Node) : Node :=
  match node with
  | .assignment "=" (.declaration declarator targets none) value =>
    .declaration declarator targets (some value)
  | other => other

/-! ## Conditionals and loops -/

/-- The condition of a keyword, in parentheses. Without them the lexemes up to the next brace are
given up, so that the block can be read. -/
def readCondition (g : Grammar) (keyword : Lexeme) (rest : List Lexeme) : Parse Node :=
  let missing : Parse Node :=
    (.expected .conditionParen rest.head? keyword.position,
      match cutAtTopLevel? (fun lexeme => lexeme.category = .leftBrace) 0 rest with
      | some cut => cut.found :: cut.after
      | none => [])
  match rest with
  | [] => missing
  | opener :: inner =>
    if opener.category = .leftParen then
      let inside (lexemes : List Lexeme) : Node :=
        if lexemes.isEmpty then .expected .condition none opener.position
        else g.readWhole opener.position lexemes
      readGroup opener inner inside .error
    else missing

/-- The further conditions of a conditional, each with its block. -/
def readClauses (g : Grammar) (finish : Position) : List Lexeme → Parse (List (Clause Node))
  | [] => ([], [])
  | keyword :: rest =>
    if keyword.isSpelled .controlKeyword "elsif" then
      let (condition, rest) := g.readCondition keyword rest
      let (body, rest) := g.readBlock finish rest
      let (clauses, rest) := g.clauses finish rest
      (⟨condition, body⟩ :: clauses, rest)
    else ([], keyword :: rest)

/-- The block behind a continuing keyword, if the keyword follows. -/
def readContinuation (g : Grammar) (finish : Position) (category : Category) (keyword : String) :
    List Lexeme → Parse (Option (List Node))
  | [] => (none, [])
  | next :: rest =>
    if next.isSpelled category keyword then
      let (body, rest) := g.readBlock finish rest
      (some body, rest)
    else (none, next :: rest)

/-- A conditional with its chain. -/
def readConditional (g : Grammar) (polarity : Polarity) (keyword : Lexeme) (rest : List Lexeme) :
    Parse Node :=
  let finish := lastPosition keyword rest
  let (condition, rest) := g.readCondition keyword rest
  let (body, rest) := g.readBlock finish rest
  let (clauses, rest) := g.readClauses finish rest
  let (otherwise, rest) := g.readContinuation finish .controlKeyword "else" rest
  (.conditional polarity condition body clauses otherwise, rest)

/-- A loop with a condition. -/
def readWhile (g : Grammar) (polarity : Polarity) (keyword : Lexeme) (rest : List Lexeme) :
    Parse Node :=
  let finish := lastPosition keyword rest
  let (condition, rest) := g.readCondition keyword rest
  let (body, rest) := g.readBlock finish rest
  (.whileLoop polarity none condition body, rest)

/-- A clause of a counting loop; an empty one is absent. -/
def readLoopClause (g : Grammar) (keyword : Lexeme) (lexemes : List Lexeme) : Option Node :=
  if lexemes.isEmpty then none
  else
    let node := g.readWhole keyword.position lexemes
    some (if nextIs .declarator lexemes then foldDeclaration node else node)

/-- The loop over a list, or the counting loop where the parentheses hold terminators. A counting
loop has three clauses and no variable of its own. -/
def readFor (g : Grammar) (keyword : Lexeme) (rest : List Lexeme) : Parse Node :=
  let finish := lastPosition keyword rest
  let (declarator, rest) : Parse (Option String) :=
    match rest with
    | [] => (none, [])
    | next :: after =>
      if next.category = .declarator then (some next.text, after) else (none, next :: after)
  let (holder, rest) : Parse (Option Node) :=
    match rest.head?.bind Lexeme.asVar? with
    | some holder => (some holder, rest.tail)
    | none => (none, rest)
  let (group, rest) : Parse (Except Node (List Lexeme)) :=
    match rest with
    | [] => (.error (.expected .loopParen none keyword.position), [])
    | opener :: after =>
      if opener.category = .leftParen then
        readGroup opener after .ok fun fault => .error (.error fault)
      else (.error (.expected .loopParen (some opener) keyword.position), opener :: after)
  let (body, rest) := g.readBlock finish rest
  match group with
  | .error node => (.foreachLoop none declarator holder node body, rest)
  | .ok lexemes =>
    if declarator.isNone && holder.isNone && hasTopLevel lexemes .terminator then
      match splitTopLevel lexemes .terminator with
      | [init, condition, step] =>
        (.forLoop none (g.readLoopClause keyword init) (g.readLoopClause keyword condition)
          (g.readLoopClause keyword step) body, rest)
      | _ => (.expected .loopClauses none keyword.position, rest)
    else
      let iterable :=
        if lexemes.isEmpty then .list [] else g.readWhole keyword.position lexemes
      (.foreachLoop none declarator holder iterable body, rest)

/-! ## Named things -/

/-- A named function; without a body it is announced only. -/
def readNamedSub (g : Grammar) (keyword : Lexeme) (rest : List Lexeme) : Parse Node :=
  let finish := lastPosition keyword rest
  match readName .subName keyword.position rest with
  | .error node => (node, rest)
  | .ok (name, rest) =>
    let (params, rest) := g.readParameters rest
    let (_, rest) := g.attributes rest
    let (body, rest) : Parse (List Node) :=
      if rest.isEmpty then ([], []) else g.readBlock finish rest
    (.sub (some name) params body, rest)

/-- A block that may be absent. -/
def readOptionalBlock (g : Grammar) (finish : Position) (rest : List Lexeme) :
    Parse (Option (List Node)) :=
  if nextIs .leftBrace rest then
    let (body, rest) := g.readBlock finish rest
    (some body, rest)
  else (none, rest)

/-- A class with its version, its parent and its body; the first `isa` names the parent. -/
def readClass (g : Grammar) (keyword : Lexeme) (rest : List Lexeme) : Parse Node :=
  let finish := lastPosition keyword rest
  match readName .className keyword.position rest with
  | .error node => (node, rest)
  | .ok (name, rest) =>
    let (version, rest) := readVersion rest
    let (marks, rest) := g.attributes rest
    let parent := (marks.find? fun mark => mark.name = "isa").bind fun mark =>
      (mark.args.bind List.head?).map Lexeme.text
    let (body, rest) := g.readOptionalBlock finish rest
    (.classDecl name version parent body, rest)

/-- A field with its attributes and its default. -/
def readField (g : Grammar) (keyword : Lexeme) (rest : List Lexeme) : Parse Node :=
  match rest.head?.bind Lexeme.asVar? with
  | none => (.expected .fieldVariable rest.head? keyword.position, rest)
  | some holder =>
    let (marks, rest) := g.attributes rest.tail
    let (default, rest) : Parse (Option Node) :=
      match rest with
      | [] => (none, [])
      | op :: value =>
        if op.isDefaultOperator then
          (some (if value.isEmpty then op.missingOperand else g.readWhole op.position value), [])
        else (none, op :: value)
    (.fieldDecl holder (marks.map Attribute.text) default, rest)

/-- A method. -/
def readMethodDecl (g : Grammar) (keyword : Lexeme) (rest : List Lexeme) : Parse Node :=
  let finish := lastPosition keyword rest
  match readName .methodName keyword.position rest with
  | .error node => (node, rest)
  | .ok (name, rest) =>
    let (params, rest) := g.readParameters rest
    let (_, rest) := g.attributes rest
    let (body, rest) := g.readBlock finish rest
    (.methodDecl name params body, rest)

/-- A package with its version and its block. -/
def readPackage (g : Grammar) (keyword : Lexeme) (rest : List Lexeme) : Parse Node :=
  let finish := lastPosition keyword rest
  match readName .packageName keyword.position rest with
  | .error node => (node, rest)
  | .ok (name, rest) =>
    let (version, rest) := readVersion rest
    let (body, rest) := g.readOptionalBlock finish rest
    (.packageDecl name version body, rest)

/-- What is imported from a module: the items of a list, or the one value. -/
def importsOf : Node → List Node
  | .collection .list items => items
  | node => [node]

/-- The use of a version, or of a module with its version and its imports. A number before a comma
is an import. -/
def readUse (g : Grammar) (negated : Bool) (keyword : Lexeme) (rest : List Lexeme) : Parse Node :=
  match readVersion rest with
  | (some version, rest) => (.useDecl negated none (some version) [], rest)
  | (none, rest) =>
    match readName .moduleName keyword.position rest with
    | .error node => (node, rest)
    | .ok (name, rest) =>
      let (version, rest) : Parse (Option String) :=
        if nextIs .comma rest.tail then (none, rest) else readVersion rest
      let imports :=
        if rest.isEmpty then [] else importsOf (g.readWhole keyword.position rest)
      (.useDecl negated (some name) version imports, [])

/-! ## Blocks with a head -/

/-- The variable of a handler from the inside of its parentheses. -/
def handlerVariable (opener : Lexeme) : List Lexeme → Node
  | [] => .expected .catchVariable none opener.position
  | [holder] =>
    holder.asVar?.getD (.expected .catchVariable (some holder) opener.position)
  | _ :: extra :: _ => .expected .closeParen (some extra) opener.position

/-- A handler, if one follows. -/
def readHandler (g : Grammar) (finish : Position) : List Lexeme → Parse (Option (Handler Node))
  | [] => (none, [])
  | keyword :: rest =>
    if keyword.isSpelled .keyword "catch" then
      let (holder, rest) : Parse (Option Node) :=
        match rest with
        | [] => (none, [])
        | opener :: after =>
          if opener.category = .leftParen then
            readGroup opener after (fun lexemes => some (handlerVariable opener lexemes))
              fun fault => some (.error fault)
          else (none, opener :: after)
      let (body, rest) := g.readBlock finish rest
      (some ⟨holder, body⟩, rest)
    else (none, keyword :: rest)

/-- A block whose messages are handled. -/
def readTry (g : Grammar) (keyword : Lexeme) (rest : List Lexeme) : Parse Node :=
  let finish := lastPosition keyword rest
  let (body, rest) := g.readBlock finish rest
  let (handler, rest) := g.readHandler finish rest
  let (final, rest) := g.readContinuation finish .keyword "finally" rest
  (.tryBlock body handler final, rest)

/-- A head in parentheses and a block. -/
def readTopic (g : Grammar) (topic : Topic) (keyword : Lexeme) (rest : List Lexeme) :
    Parse Node :=
  let finish := lastPosition keyword rest
  let (head, rest) := g.readCondition keyword rest
  let (body, rest) := g.readBlock finish rest
  (.topic topic head body, rest)

/-- A phase block: a function that its phase names. -/
def readPhaseBlock (g : Grammar) (phase : Lexeme) (rest : List Lexeme) : Parse Node :=
  let (body, rest) := g.readBlock (lastPosition phase rest) rest
  (.sub (some phase.text) [] body, rest)

/-! ## Dispatch -/

/-- A keyword that continues a chain with nothing to continue. -/
def dangling (keyword : Lexeme) : Node := .fault (.dangling keyword.text) keyword.position

/-- A statement whose head is a control keyword. -/
def readControl (g : Grammar) (keyword : Lexeme) (rest : List Lexeme) : Node :=
  match keyword.text with
  | "if" => .finish (g.readConditional .affirmed keyword rest)
  | "unless" => .finish (g.readConditional .negated keyword rest)
  | "while" => .finish (g.readWhile .affirmed keyword rest)
  | "until" => .finish (g.readWhile .negated keyword rest)
  | "for" => .finish (g.readFor keyword rest)
  | "foreach" => .finish (g.readFor keyword rest)
  | _ => dangling keyword

/-- A statement whose head is a reserved word. -/
def readReserved (g : Grammar) (keyword : Lexeme) (rest : List Lexeme) : Node :=
  match keyword.text with
  | "sub" =>
    if rest.head?.any Lexeme.isWord then .finish (g.readNamedSub keyword rest)
    else g.readWhole keyword.position (keyword :: rest)
  | "class" => .finish (g.readClass keyword rest)
  | "field" => .finish (g.readField keyword rest)
  | "method" => .finish (g.readMethodDecl keyword rest)
  | "package" => .finish (g.readPackage keyword rest)
  | "use" => .finish (g.readUse false keyword rest)
  | "no" => .finish (g.readUse true keyword rest)
  | "try" => .finish (g.readTry keyword rest)
  | "catch" => dangling keyword
  | "finally" => dangling keyword
  | "given" => .finish (g.readTopic .given keyword rest)
  | "when" => .finish (g.readTopic .whenever keyword rest)
  | "match" => .finish (g.readTopic .matching keyword rest)
  | "case" => .finish (g.readTopic .case keyword rest)
  | "default" =>
    let (body, rest) := g.readBlock (lastPosition keyword rest) rest
    .finish (.defaultBlock body, rest)
  | _ => g.readWhole keyword.position (keyword :: rest)

/-- A statement without label and modifier, told by its first lexeme. -/
def readSimple (g : Grammar) (head : Lexeme) (rest : List Lexeme) : Node :=
  match head.category with
  | .controlKeyword => g.readControl head rest
  | .keyword => g.readReserved head rest
  | .leftBrace =>
    let (body, rest) := g.readBlock (lastPosition head rest) (head :: rest)
    .finish (.block none body, rest)
  | .identifier =>
    if (head.text = "BEGIN" || head.text = "END") && nextIs .leftBrace rest then
      .finish (g.readPhaseBlock head rest)
    else g.readWhole head.position (head :: rest)
  | .declarator => foldDeclaration (g.readWhole head.position (head :: rest))
  | _ => g.readWhole head.position (head :: rest)

/-- The statement that a modifier makes of another. -/
def modified (keyword : String) (condition : Node) (body : List Node) : Node :=
  match keyword with
  | "if" => .conditionalOf .affirmed condition body
  | "unless" => .conditionalOf .negated condition body
  | "while" => .whileLoop .affirmed none condition body
  | "until" => .whileLoop .negated none condition body
  | _ => .foreachLoop none none none condition body

/-- A statement without label. A modifier stands at depth zero and never first. -/
def readModified (g : Grammar) (head : Lexeme) (rest : List Lexeme) : Node :=
  if head.category = .controlKeyword then g.readSimple head rest
  else
    match cutAtTopLevel? Lexeme.isModifier 0 (head :: rest) with
    | some ⟨first :: before, keyword, after⟩ =>
      let condition :=
        if after.isEmpty then .expected .condition none keyword.position
        else g.readWhole keyword.position after
      modified keyword.text condition [g.readSimple first before]
    | _ => g.readSimple head rest

/-- The lexemes of a statement without the terminator at their end. -/
def withoutTerminator (lexemes : List Lexeme) : List Lexeme :=
  if lexemes.getLast?.any fun last => last.category = .terminator then lexemes.dropLast
  else lexemes

/-- One statement; nothing where there is only a terminator. -/
def readStatement (g : Grammar) (lexemes : List Lexeme) : Option Node :=
  match withoutTerminator lexemes with
  | [] => none
  | [head] => some (g.readModified head [])
  | head :: colon :: rest =>
    if head.category = .identifier ∧ colon.category = .colon then
      match rest with
      | [] => some (.expected .labelledStatement none head.position)
      | first :: rest => some ((g.readModified first rest).labelled head.text)
    else some (g.readModified head (colon :: rest))

/-- The statements of a block; empty ones leave no trace. -/
def readStatements (g : Grammar) (lexemes : List Lexeme) : List Node :=
  (splitStatements lexemes).filterMap g.readStatement

/-! ## The grammar -/

/-- The grammar that reads a lexeme more. -/
def step (g : Grammar) : Grammar where
  whole := g.readWhole
  operation := g.readOperation
  climb := g.readClimb
  operand := g.readOperand
  primary := g.readPrimary
  chain := g.readChain
  items := g.readItems
  arguments := g.readArguments
  attributes := g.attributes
  clauses := g.readClauses
  statements := g.readStatements

/-- The grammar that reads every list of fewer lexemes than its level. -/
def level : Nat → Grammar
  | 0 => empty
  | n + 1 => (level n).step

end Grammar

/-- Read all lexemes as one expression or one comma list. -/
def parseExpression (anchor : Position) (lexemes : List Lexeme) : Node :=
  (Grammar.level lexemes.length).readWhole anchor lexemes

/-- Read the lexemes of one statement; nothing where there is only a terminator. -/
def parseStatement (lexemes : List Lexeme) : Option Node :=
  (Grammar.level lexemes.length).readStatement lexemes

/-- Read the lexemes of a block as statements. -/
def parseBlock (lexemes : List Lexeme) : List Node :=
  (Grammar.level lexemes.length).readStatements lexemes

end SigilScript
