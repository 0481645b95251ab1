import SigilScript.Token

/-! # Categories of tokens

Every token plays one of a fixed set of roles, its category. Words get theirs from tables, and a
word right after an arrow is always a plain name, whatever the tables say. From categories alone
two questions of reading are decided: whether a token ends an operand, so that a slash after it
divides, and whether a brace opens a block rather than a subscript or an anonymous hash.
-/

namespace SigilScript

/-- Conditional and loop keywords. -/
def controlKeywords : List String :=
  ["if", "unless", "elsif", "else", "while", "until", "for", "foreach"]

/-- Words that declare variables. -/
def declarators : List String := ["my", "our", "state", "local"]

/-- Reserved words with a production of their own. -/
def keywords : List String :=
  ["sub", "class", "method", "field", "package", "use", "no", "require", "return", "last", "next",
   "redo", "do", "try", "catch", "finally", "given", "when", "default", "match", "case", "print",
   "say", "die", "warn"]

/-- Binary operators spelled as words. -/
def wordOperators : List String :=
  ["eq", "ne", "lt", "gt", "le", "ge", "cmp", "and", "or", "xor", "x", "isa"]

/-- Builtins that take at most one operand and bind tighter than comparisons. -/
def namedUnaryBuiltins : List String :=
  ["defined", "ref", "scalar", "lc", "uc", "lcfirst", "ucfirst", "fc", "length", "chr", "ord",
   "int", "abs", "sqrt", "hex", "oct", "exp", "log", "sin", "cos", "exists", "delete", "shift",
   "pop", "keys", "values", "each", "chomp", "chop", "chdir", "rmdir", "readline", "close",
   "undef", "exit", "rand", "srand", "quotemeta", "caller", "sleep", "lock"]

/-- Builtins that take every argument up to a loosely binding word operator. -/
def listBuiltins : List String :=
  ["push", "unshift", "splice", "join", "split", "map", "grep", "sort", "reverse", "sprintf",
   "printf", "open", "binmode", "bless", "localtime", "gmtime", "unlink", "mkdir", "substr",
   "index", "rindex", "pack", "unpack", "system", "exec", "kill", "eval", "atan2", "select",
   "seek", "read", "sysread", "syswrite", "chmod", "chown"]

/-- Builtins without an operand unless they are called with parentheses. -/
def nullaryBuiltins : List String := ["wantarray", "time", "times", "wait", "fork"]

/-- Builtins whose first argument may be a block. -/
def blockBuiltins : List String := ["map", "grep", "sort", "eval"]

/-- The role of a token. -/
inductive Category where
  | literal
  | identifier
  | builtin
  | controlKeyword
  | declarator
  | keyword
  | binaryOperator
  | unaryOperator
  | var
  | postfixDerefSigil
  | leftParen
  | rightParen
  | leftBracket
  | rightBracket
  | leftBrace
  | rightBrace
  | comma
  | terminator
  | question
  | colon
  | arrow
deriving DecidableEq, Repr, Inhabited

namespace Category

/-- The name under which a listing of lexemes shows a role. -/
def name : Category → String
  | .literal => "Literal"
  | .identifier => "Identifier"
  | .builtin => "Builtin"
  | .controlKeyword => "ControlKeyword"
  | .declarator => "Declarator"
  | .keyword => "Keyword"
  | .binaryOperator => "BinaryOperator"
  | .unaryOperator => "UnaryOperator"
  | .var => "Variable"
  | .postfixDerefSigil => "PostfixDerefSigil"
  | .leftParen => "LeftParen"
  | .rightParen => "RightParen"
  | .leftBracket => "LeftBracket"
  | .rightBracket => "RightBracket"
  | .leftBrace => "LeftBrace"
  | .rightBrace => "RightBrace"
  | .comma => "Comma"
  | .terminator => "Terminator"
  | .question => "Question"
  | .colon => "Colon"
  | .arrow => "Arrow"

/-- Every role. -/
def all : List Category :=
  [.literal, .identifier, .builtin, .controlKeyword, .declarator, .keyword, .binaryOperator,
   .unaryOperator, .var, .postfixDerefSigil, .leftParen, .rightParen, .leftBracket,
   .rightBracket, .leftBrace, .rightBrace, .comma, .terminator, .question, .colon, .arrow]

/-- The role of a name. -/
def ofName? (name : String) : Option Category := all.find? fun category => category.name = name

theorem mem_all (category : Category) : category ∈ all := by
  cases category <;> decide

theorem ofName?_name (category : Category) : ofName? category.name = some category := by
  cases category <;> decide +kernel

/-- Whether a token of this role ends an operand. -/
def isValue : Category → Bool
  | .literal | .identifier | .var | .rightParen | .rightBracket | .rightBrace => true
  | _ => false

/-- Whether a token of this role opens a group. -/
def isOpener : Category → Bool
  | .leftParen | .leftBracket | .leftBrace => true
  | _ => false

/-- Whether a token of this role closes a group. -/
def isCloser : Category → Bool
  | .rightParen | .rightBracket | .rightBrace => true
  | _ => false

/-- The role that closes what this role opens. -/
def closer? : Category → Option Category
  | .leftParen => some .rightParen
  | .leftBracket => some .rightBracket
  | .leftBrace => some .rightBrace
  | _ => none

theorem closer?_isSome (category : Category) : category.closer?.isSome = category.isOpener := by
  cases category <;> rfl

/-- The role of a word that no arrow precedes. -/
def ofWord (word : String) : Category :=
  if word ∈ controlKeywords then .controlKeyword
  else if word ∈ declarators then .declarator
  else if word ∈ keywords then .keyword
  else if word ∈ wordOperators then .binaryOperator
  else if word = "not" then .unaryOperator
  else if word = "true" ∨ word = "false" then .literal
  else if word ∈ namedUnaryBuiltins ∨ word ∈ listBuiltins ∨ word ∈ nullaryBuiltins then .builtin
  else .identifier

/-- The role of an operator without a kind of its own: five spellings are prefix operators. -/
def ofOperator (spelling : String) : Category :=
  if spelling ∈ ["!", "~", "\\", "++", "--"] then .unaryOperator else .binaryOperator

end Category

/-- Whether a word is a builtin with at most one operand. -/
def isNamedUnary (word : String) : Bool := namedUnaryBuiltins.contains word

/-- Whether a word is a builtin without operands. -/
def isNullary (word : String) : Bool := nullaryBuiltins.contains word

/-- Whether a word is a builtin that may take a block first. -/
def takesBlock (word : String) : Bool := blockBuiltins.contains word

/-- The role of a token on its own. -/
def Token.category (token : Token) : Category :=
  match token.kind with
  | .number | .string _ | .quoteWords _ | .regex _ => .literal
  | .identifier => .ofWord token.text
  | .var _ => .var
  | .derefSigil _ => .postfixDerefSigil
  | .operator => .ofOperator token.text
  | .openParen => .leftParen
  | .closeParen => .rightParen
  | .openBracket => .leftBracket
  | .closeBracket => .rightBracket
  | .openBrace => .leftBrace
  | .closeBrace => .rightBrace
  | .comma | .fatComma => .comma
  | .semicolon => .terminator
  | .question => .question
  | .colon => .colon
  | .arrow => .arrow

/-- The role of a token that follows a token of role `previous`: a word after an arrow is a name. -/
def Token.categoryAfter (token : Token) (previous : Option Category) : Category :=
  match token.kind, previous with
  | .identifier, some .arrow => .identifier
  | _, _ => token.category

/-- Whether a token ends an operand, so that a slash after it divides: a builtin without operands
does, and a brace that closed a block does not. -/
def Token.endsOperand (token : Token) (category : Category) (closedBlock : Bool) : Bool :=
  match category with
  | .builtin => isNullary token.text
  | .rightBrace => !closedBlock
  | other => other.isValue

/-- Whether a brace after a token of role `previous` opens a block; `afterBlock` says that the
token is a brace which itself closed a block. -/
def braceOpensBlock (previous : Option Category) (afterBlock : Bool) : Bool :=
  match previous with
  | none => true
  | some .rightBrace => afterBlock
  | some .terminator | some .rightParen | some .leftBrace | some .controlKeyword
  | some .keyword | some .builtin | some .identifier | some .literal => true
  | some _ => false

end SigilScript
