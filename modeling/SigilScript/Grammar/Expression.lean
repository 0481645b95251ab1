import SigilScript.Category
import SigilScript.Grammar.Basic

/-! # Expressions

Operators are read by climbing: an operand takes the operators after it that bind tightly enough,
and the right side of each is read at the level that its grouping asks for. An operand is a
primary with the operators before it and a chain of subscripts, arrows and steps behind it. Each
production here is one step of the grammar: it leans on `g` for fewer lexemes than its own.
-/

namespace SigilScript

namespace Grammar

/-! ## Lists and subscripts -/

/-- The items of a bracketed group. Empty items are skipped, and a word before a fat comma is a
string. -/
def readElements (g : Grammar) (anchor : Position) (lexemes : List Lexeme) : List Node :=
  let element (segment : Segment) : Option Node :=
    if segment.lexemes.isEmpty then none
    else
      match (segment.separator.filter Lexeme.isFatComma).bind fun _ =>
          barewordKey? segment.lexemes with
      | some key => some (.plain key)
      | none => some (g.whole anchor segment.lexemes)
  (segmentsAt .comma lexemes).filterMap element

/-- An index, or a list of them. -/
def readSubscript (g : Grammar) (anchor : Position) (lexemes : List Lexeme) : Node :=
  if lexemes.isEmpty then .expected .subscript none anchor
  else if hasTopLevel lexemes .comma then .list (g.readElements anchor lexemes)
  else g.whole anchor lexemes

/-- A key: a word alone is a string. -/
def readHashKey (g : Grammar) (anchor : Position) (lexemes : List Lexeme) : Node :=
  match barewordKey? lexemes with
  | some key => .plain key
  | none => g.readSubscript anchor lexemes

/-- What a pair of brackets or braces indexes with. -/
def readIndex (g : Grammar) (opener : Lexeme) (lexemes : List Lexeme) : Node :=
  if opener.category = .leftBracket then g.readSubscript opener.position lexemes
  else g.readHashKey opener.position lexemes

/-- The items of a group in parentheses. -/
def readGroupElements (g : Grammar) (opener : Lexeme) (rest : List Lexeme) : Parse (List Node) :=
  readGroup opener rest (g.readElements opener.position) fun fault => [.error fault]

/-- The arguments of a list operator: expressions between commas, for as long as a lexeme can
begin one. -/
def readArguments (g : Grammar) : List Lexeme → Parse (List Node)
  | [] => ([], [])
  | lexeme :: rest =>
    if lexeme.startsOperand then
      let (argument, rest) := g.operation Level.assignment lexeme rest
      if nextIs .comma rest then
        let (arguments, rest) := g.arguments (rest.dropWhile fun next => next.category = .comma)
        (argument :: arguments, rest)
      else ([argument], rest)
    else ([], lexeme :: rest)

/-- Arguments in parentheses where they follow, else those of a list operator. -/
def readCallArguments (g : Grammar) : List Lexeme → Parse (List Node)
  | [] => ([], [])
  | opener :: rest =>
    if opener.category = .leftParen then g.readGroupElements opener rest
    else g.readArguments (opener :: rest)

/-- The arguments of a method: none without parentheses. -/
def readMethodArguments (g : Grammar) : List Lexeme → Parse (List Node)
  | [] => ([], [])
  | opener :: rest =>
    if opener.category = .leftParen then g.readGroupElements opener rest
    else ([], opener :: rest)

/-! ## Blocks and signatures -/

/-- A block in braces; without one the rest is given up. `finish` is the place of the last lexeme
there was. -/
def readBlock (g : Grammar) (finish : Position) : List Lexeme → Parse (List Node)
  | [] => ([.expected .openBrace none finish], [])
  | opener :: rest =>
    if opener.category = .leftBrace then
      readGroup opener rest g.statements fun fault => [.error fault]
    else ([.expected .openBrace (some opener) finish], [])

/-- The default of a parameter, from its operator on. -/
def readDefault (g : Grammar) (anchor : Position) : List Lexeme → Option Node
  | [] => none
  | op :: rest =>
    if op.isDefaultOperator then
      some (if rest.isEmpty then op.missingOperand else g.whole op.position rest)
    else some (.expected .parameterEnd (some op) anchor)

/-- One parameter of a signature. -/
def readParameter (g : Grammar) (anchor : Position) (segment : List Lexeme) : Node :=
  match segment.head?.bind Lexeme.asVar? with
  | some holder => .parameter holder (g.readDefault anchor segment.tail)
  | none => .expected .parameter segment.head? anchor

/-- The parameters of a signature in parentheses, if one follows. -/
def readParameters (g : Grammar) : List Lexeme → Parse (List Node)
  | [] => ([], [])
  | opener :: rest =>
    if opener.category = .leftParen then
      let signature (lexemes : List Lexeme) : List Node :=
        ((splitTopLevel lexemes .comma).filter fun segment => !segment.isEmpty).map
          (g.readParameter opener.position)
      readGroup opener rest signature fun fault => [.error fault]
    else ([], opener :: rest)

/-! ## Primaries -/

/-- The operand that an operator asks for on its right, at a level. -/
def readRight (g : Grammar) (op : Lexeme) (level : Nat) : List Lexeme → Parse Node
  | [] => (op.missingOperand, [])
  | lexeme :: rest => g.operation level lexeme rest

/-- What a sigil dereferences: an expression in braces, or a variable. The sigil of a last index
stays an operator. -/
def readDereference (g : Grammar) (sigil : Sigil) (lexeme : Lexeme) (rest : List Lexeme) :
    Parse Node :=
  let wrap (parse : Parse Node) : Parse Node :=
    (if lexeme.text = "$#" then .leading "$#" parse.1 else .dereference sigil parse.1, parse.2)
  match rest with
  | [] => (.expected .reference none lexeme.position, [])
  | next :: after =>
    if next.category = .leftBrace then
      wrap (readGroup next after (g.whole next.position) .error)
    else if next.category = .var || next.category = .postfixDerefSigil then
      wrap (g.primary next after)
    else (.expected .reference (some next) lexeme.position, next :: after)

/-- What is declared, without an initializer. -/
def readDeclaration (g : Grammar) (lexeme : Lexeme) : List Lexeme → Parse Node
  | [] => (.declare lexeme.text [.expected .declaredVariable none lexeme.position], [])
  | next :: rest =>
    if next.category = .leftParen then
      let (targets, rest) := g.readGroupElements next rest
      (.declare lexeme.text targets, rest)
    else
      let (primary, rest) := g.primary next rest
      let (target, rest) := g.chain primary rest
      (.declare lexeme.text [target], rest)

/-- A group in parentheses: a list where it holds a comma, else what is inside. -/
def readParenthesized (g : Grammar) (opener : Lexeme) (rest : List Lexeme) : Parse Node :=
  let inside (lexemes : List Lexeme) : Node :=
    if lexemes.isEmpty then .list []
    else if hasTopLevel lexemes .comma then .list (g.readElements opener.position lexemes)
    else g.whole opener.position lexemes
  readGroup opener rest inside .error

/-- The filehandle of an output, if one follows: a block, a bare word that is no operand, or a
variable right before another operand. -/
def readFilehandle (g : Grammar) : List Lexeme → Parse (Option Node)
  | [] => (none, [])
  | first :: rest =>
    match first.category with
    | .leftBrace => readGroup first rest (fun lexemes => some (g.whole first.position lexemes))
        fun fault => some (.error fault)
    | .identifier =>
      if rest.head?.any Lexeme.rulesOutFilehandle then (none, first :: rest)
      else (some (.bareword first.text), rest)
    | .var =>
      if nextIs .literal rest || nextIs .var rest then (first.asVar?, rest)
      else (none, first :: rest)
    | _ => (none, first :: rest)

/-- A list of values as one: none, the value alone, or a list. -/
def valueOf : List Node → Option Node
  | [] => none
  | [value] => some value
  | values => some (.list values)

/-- The label of a jump, if one follows. -/
def readJump (jump : Jump) : List Lexeme → Parse Node
  | [] => (.jump jump none, [])
  | label :: rest =>
    if label.category = .identifier then (.jump jump (some label.text), rest)
    else (.jump jump none, label :: rest)

/-- A call by name. -/
def readCall (g : Grammar) (name : String) (rest : List Lexeme) : Parse Node :=
  let (args, rest) := g.readCallArguments rest
  (.call name args, rest)

/-- An anonymous function. -/
def readAnonymousSub (g : Grammar) (keyword : Lexeme) (rest : List Lexeme) : Parse Node :=
  let (params, afterParams) := g.readParameters rest
  let (_, afterAttributes) := g.attributes afterParams
  let (body, rest) := g.readBlock (lastPosition keyword rest) afterAttributes
  (.sub none params body, rest)

/-- What is required: a bare word or an operand. -/
def readRequire (g : Grammar) (keyword : Lexeme) (rest : List Lexeme) : Parse Node :=
  match rest.head?.filter Lexeme.isWord with
  | some word => (.require (.bareword word.text), rest.tail)
  | none =>
    let (target, rest) := g.readRight keyword Level.namedUnary rest
    (.require target, rest)

/-- An output with its filehandle and its list. -/
def readOutput (g : Grammar) (output : Output) (rest : List Lexeme) : Parse Node :=
  let (filehandle, rest) := g.readFilehandle rest
  let (args, rest) := g.readArguments rest
  (.output output filehandle args, rest)

/-- An alarm with its list. -/
def readAlarm (g : Grammar) (alarm : Alarm) (rest : List Lexeme) : Parse Node :=
  let (args, rest) := g.readCallArguments rest
  (.alarm alarm args, rest)

/-- An expression that a keyword begins. -/
def readKeyword (g : Grammar) (keyword : Lexeme) (rest : List Lexeme) : Parse Node :=
  match keyword.text with
  | "print" =>
    if nextIs .leftParen rest then g.readCall "print" rest else g.readOutput .print rest
  | "say" => if nextIs .leftParen rest then g.readCall "say" rest else g.readOutput .say rest
  | "do" =>
    if nextIs .leftParen rest then g.readCall "do" rest
    else if nextIs .leftBrace rest then
      let (body, rest) := g.readBlock (lastPosition keyword rest) rest
      (.doBlock body, rest)
    else
      let (operand, rest) := g.readRight keyword Level.namedUnary rest
      (.call "do" [operand], rest)
  | "require" =>
    if nextIs .leftParen rest then g.readCall "require" rest else g.readRequire keyword rest
  | "sub" => g.readAnonymousSub keyword rest
  | "die" => g.readAlarm .die rest
  | "warn" => g.readAlarm .warn rest
  | "return" =>
    let (values, rest) := g.readArguments rest
    (.returned (valueOf values), rest)
  | "last" => readJump .last rest
  | "next" => readJump .next rest
  | "redo" => readJump .redo rest
  | _ => (keyword.unexpected, rest)

/-- The operand of a builtin that takes at most one. -/
def readNamedOperand (g : Grammar) : List Lexeme → Parse (List Node)
  | [] => ([], [])
  | lexeme :: rest =>
    if lexeme.startsNamedOperand then
      let (operand, rest) := g.operation Level.namedUnary lexeme rest
      ([operand], rest)
    else ([], lexeme :: rest)

/-- The block that a builtin takes as its first argument, with the comma after it. -/
def readLeadingBlock (g : Grammar) (name : Lexeme) (rest : List Lexeme) : Parse (List Node) :=
  if takesBlock name.text && nextIs .leftBrace rest then
    let (body, rest) := g.readBlock (lastPosition name rest) rest
    ([.block none body], if nextIs .comma rest then rest.tail else rest)
  else ([], rest)

/-- A call of a builtin by its name alone. -/
def readBuiltin (g : Grammar) (name : Lexeme) (rest : List Lexeme) : Parse Node :=
  if isNullary name.text then (.call name.text [], rest)
  else if isNamedUnary name.text then
    let (args, rest) := g.readNamedOperand rest
    (.call name.text args, rest)
  else
    let (block, rest) := g.readLeadingBlock name rest
    let (args, rest) := g.readArguments rest
    (.call name.text (block ++ args), rest)

/-- An expression that a name begins: a string before a fat comma, a call, or a bare word. -/
def readWord (g : Grammar) (name : Lexeme) (rest : List Lexeme) : Parse Node :=
  if rest.head?.any Lexeme.isFatComma then (.plain name.text, rest)
  else if nextIs .leftParen rest then g.readCall name.text rest
  else if name.category = .builtin then g.readBuiltin name rest
  else if nextIs .literal rest || nextIs .var rest || nextIs .postfixDerefSigil rest then
    let (args, rest) := g.readArguments rest
    (.call name.text args, rest)
  else (.bareword name.text, rest)

/-- An operand without anything around it. -/
def readPrimary (g : Grammar) (lexeme : Lexeme) (rest : List Lexeme) : Parse Node :=
  match lexeme.token.kind with
  | .number => (.number lexeme.text, rest)
  | .string interpolated => (.string lexeme.text interpolated, rest)
  | .quoteWords words => (.list (words.map .plain), rest)
  | .regex flags => (.regex lexeme.text flags, rest)
  | .var sigil => (.ofSpelling sigil lexeme.text, rest)
  | .derefSigil sigil => g.readDereference sigil lexeme rest
  | _ =>
    match lexeme.category with
    | .literal => (.boolean (lexeme.text = "true"), rest)
    | .leftBracket =>
      readGroup lexeme rest
        (fun lexemes => .collection .array (g.readElements lexeme.position lexemes)) .error
    | .leftBrace =>
      readGroup lexeme rest
        (fun lexemes => .collection .hash (g.readElements lexeme.position lexemes)) .error
    | .leftParen => g.readParenthesized lexeme rest
    | .declarator => g.readDeclaration lexeme rest
    | .keyword => g.readKeyword lexeme rest
    | .identifier | .builtin => g.readWord lexeme rest
    | _ => (lexeme.unexpected, rest)

/-! ## Chains -/

/-- Whether brackets or braces right behind a tree index it. -/
def acceptsSubscript : Node → Bool
  | .var sigil _ | .dereference sigil _ => sigil ≠ .hash
  | .access .arrayElement .. | .access .hashElement .. | .codeCall .. => true
  | _ => false

/-- Whether a tree can be stepped up or down. -/
def isPlace : Node → Bool
  | .var .. | .access .arrayElement .. | .access .hashElement .. | .dereference ..
  | .postfixDeref .. => true
  | _ => false

/-- The container that an indexed variable names: `$a` indexed by brackets is an element of `@a`.
-/
def container (sigil : Sigil) : Node → Node
  | .var _ name => .var sigil name
  | .dereference _ target => .dereference sigil target
  | other => other

/-- Whether a tree carries the sigil of an array, so that an index behind it takes a slice. -/
def takesSlice : Node → Bool
  | .var .array _ | .dereference .array _ => true
  | _ => false

/-- What brackets or braces right behind a tree make of it. -/
def indexed (base : Node) (opener : Lexeme) (index : Node) : Node :=
  if opener.category = .leftBracket then
    if takesSlice base then .access .arraySlice base index
    else .access .arrayElement (container .array base) index
  else if takesSlice base then .access .hashSlice (container .hash base) index
  else .access .hashElement (container .hash base) index

/-- A subscript right behind a tree. -/
def readDirectSubscript (g : Grammar) (base : Node) (opener : Lexeme) (rest : List Lexeme) :
    Parse Node :=
  readGroup opener rest (fun lexemes => indexed base opener (g.readIndex opener lexemes)) .error

/-- What a sigil behind an arrow takes out of a reference: all of it, or a slice. -/
def readPostfixDeref (g : Grammar) (base : Node) (lexeme : Lexeme) (sigil : Sigil) :
    List Lexeme → Parse Node
  | [] => (.expected .derefForm none lexeme.position, [])
  | next :: rest =>
    if next.isOperator "*" then (.postfixDeref base sigil, rest)
    else if next.category = .leftBracket || next.category = .leftBrace then
      readGroup next rest (fun lexemes => .postfixSlice base sigil (g.readIndex next lexemes))
        .error
    else (.expected .derefForm (some next) lexeme.position, next :: rest)

/-- A method call by name. -/
def readMethod (g : Grammar) (invocant : Node) (name : Lexeme) (rest : List Lexeme) : Parse Node :=
  let (args, rest) := g.readMethodArguments rest
  (.methodCall invocant name.text args, rest)

/-- What stands behind an arrow. -/
def readArrow (g : Grammar) (base : Node) (arrow : Lexeme) : List Lexeme → Parse Node
  | [] => (.expected .member none arrow.position, [])
  | next :: rest =>
    match next.category, next.token.kind with
    | .leftBracket, _ =>
      readGroup next rest (fun lexemes => .access .arrayElement base (g.readIndex next lexemes))
        .error
    | .leftBrace, _ =>
      readGroup next rest (fun lexemes => .access .hashElement base (g.readIndex next lexemes))
        .error
    | .leftParen, _ =>
      readGroup next rest (fun lexemes => .codeCall base (g.readElements next.position lexemes))
        .error
    | .postfixDerefSigil, .derefSigil sigil => g.readPostfixDeref base next sigil rest
    | .postfixDerefSigil, _ => (.expected .member (some next) next.position, rest)
    | .var, _ => g.readMethod base next rest
    | _, .identifier => g.readMethod base next rest
    | _, _ => (.expected .member (some next) arrow.position, rest)

/-- The subscripts, arrows and steps behind an operand, each around what was read before it. -/
def readChain (g : Grammar) (node : Node) : List Lexeme → Parse Node
  | [] => (node, [])
  | next :: rest =>
    let onward (parse : Parse Node) : Parse Node := g.chain parse.1 parse.2
    match next.category with
    | .leftBracket | .leftBrace =>
      if acceptsSubscript node then onward (g.readDirectSubscript node next rest)
      else (node, next :: rest)
    | .arrow => onward (g.readArrow node next rest)
    | .unaryOperator =>
      if (next.text = "++" || next.text = "--") && isPlace node then
        onward (.trailing next.text node, rest)
      else (node, next :: rest)
    | _ => (node, next :: rest)

/-! ## Operators -/

/-- A primary with its chain. -/
def readAtom (g : Grammar) (lexeme : Lexeme) (rest : List Lexeme) : Parse Node :=
  let (primary, rest) := g.readPrimary lexeme rest
  g.readChain primary rest

/-- The operand of an operator that stands before it. Steps bind tighter than powers. -/
def readLeading (g : Grammar) (op : Lexeme) (rest : List Lexeme) : Parse Node :=
  let (operand, rest) : Parse Node :=
    match rest with
    | [] => (op.missingOperand, [])
    | lexeme :: rest =>
      if op.text = "++" || op.text = "--" then g.operand lexeme rest
      else g.operation Level.power lexeme rest
  (.leading op.text operand, rest)

/-- An operand with the operators before it. A plus sign before a brace only says that the brace
opens a hash. -/
def readOperand (g : Grammar) (lexeme : Lexeme) (rest : List Lexeme) : Parse Node :=
  match lexeme.category with
  | .unaryOperator =>
    if lexeme.text = "not" then
      let (operand, rest) := g.readRight lexeme Level.negation rest
      (.leading lexeme.text operand, rest)
    else g.readLeading lexeme rest
  | .binaryOperator =>
    match lexeme.text, rest with
    | "+", next :: after =>
      if next.category = .leftBrace then
        let (hash, rest) := g.primary next after
        g.chain hash rest
      else g.readLeading lexeme (next :: after)
    | "+", [] => g.readLeading lexeme []
    | "-", rest => g.readLeading lexeme rest
    | _, rest => g.readAtom lexeme rest
  | _ => g.readAtom lexeme rest

/-- A branch of a ternary. -/
def readBranch (g : Grammar) (anchor : Position) (lexemes : List Lexeme) : Node :=
  if lexemes.isEmpty then .fault .emptyBranch anchor else g.whole anchor lexemes

/-- A ternary from behind its question mark on. Its first branch is all up to its colon. -/
def readTernary (g : Grammar) (condition : Node) (question : Lexeme) (rest : List Lexeme) :
    Parse Node :=
  match cutAtColon? 0 0 rest with
  | none =>
    (.ternary condition (g.readBranch question.position rest)
      (.fault .missingTernaryColon question.position), [])
  | some cut =>
    let (whenFalse, after) : Parse Node :=
      match cut.after with
      | [] => (.fault .emptyBranch cut.found.position, [])
      | lexeme :: rest => g.operation Level.ternary lexeme rest
    (.ternary condition (g.readBranch question.position cut.before) whenFalse, after)

/-- The operators behind an operand that bind at this level or tighter. -/
def readClimb (g : Grammar) (level : Nat) (left : Node) : List Lexeme → Parse Node
  | [] => (left, [])
  | next :: rest =>
    match next.category with
    | .question =>
      if Level.ternary < level then (left, next :: rest)
      else
        let (ternary, rest) := g.readTernary left next rest
        g.climb level ternary rest
    | .binaryOperator =>
      match (binding? next.text).filter fun binding => level ≤ binding.level with
      | none => (left, next :: rest)
      | some binding =>
        let (right, rest) := g.readRight next binding.rightLevel rest
        g.climb level (.binary next.text left right) rest
    | _ => (left, next :: rest)

/-- An operand and the operators behind it that bind at this level or tighter. -/
def readOperation (g : Grammar) (level : Nat) (lexeme : Lexeme) (rest : List Lexeme) :
    Parse Node :=
  let (operand, rest) := g.readOperand lexeme rest
  g.readClimb level operand rest

/-- The further items of a comma list; commas next to each other count as one. -/
def readItems (g : Grammar) : List Lexeme → Parse (List Node)
  | [] => ([], [])
  | comma :: rest =>
    if comma.category = .comma then
      match rest with
      | [] => ([], [])
      | lexeme :: after =>
        if lexeme.category = .comma then g.items (lexeme :: after)
        else
          let (item, after) := g.operation Level.lowest lexeme after
          let (items, after) := g.items after
          (item :: items, after)
    else ([], comma :: rest)

/-- All lexemes as one expression or one comma list. -/
def readWhole (g : Grammar) (anchor : Position) : List Lexeme → Node
  | [] => .fault .unexpectedEnd anchor
  | lexeme :: rest =>
    let (first, rest) := g.readOperation Level.lowest lexeme rest
    if nextIs .comma rest then
      let (items, rest) := g.readItems rest
      .finish (.list (first :: items), rest)
    else .finish (first, rest)

end Grammar

end SigilScript
