import SigilScript.Token

/-! # Faults

Two families of faults. A scan fault is met while text is read as tokens, a syntax fault while
lexemes are read as a tree. Each holds its cause and its place; the wording is fixed here and
nowhere else.
-/

namespace SigilScript

/-- Why text could not be read as a token. -/
inductive ScanCause where
  | unterminatedString
  | unterminatedRegex
  | unterminatedQuoteWords
  | unexpectedCharacter (character : Char)
deriving DecidableEq, Repr, Inhabited

/-- The wording of a cause. -/
def ScanCause.message : ScanCause → String
  | .unterminatedString => "unterminated string literal"
  | .unterminatedRegex => "unterminated regex literal"
  | .unterminatedQuoteWords => "unterminated qw list"
  | .unexpectedCharacter character => "unexpected character: " ++ String.singleton character

/-- A fault met while scanning, at the first character of what was being read. -/
structure ScanFault where
  cause : ScanCause
  position : Position
deriving DecidableEq, Repr, Inhabited

/-- The wording of a scan fault with its place. -/
def ScanFault.message (fault : ScanFault) : String :=
  fault.cause.message ++ " " ++ fault.position.long

/-- What the grammar asked for where something else, or nothing, stood. -/
inductive Construct where
  | openBrace
  | closeParen
  | subscript
  | declaredVariable
  | reference
  | member
  | derefForm
  | labelledStatement
  | condition
  | conditionParen
  | loopParen
  | loopClauses
  | parameter
  | parameterEnd
  | subName
  | className
  | fieldVariable
  | methodName
  | packageName
  | moduleName
  | catchVariable
deriving DecidableEq, Repr, Inhabited

/-- The wording of what was asked for. -/
def Construct.text : Construct → String
  | .openBrace => "'\x7b'"
  | .closeParen => "')'"
  | .subscript => "subscript"
  | .declaredVariable => "variable"
  | .reference => "reference after sigil"
  | .member => "subscript, method or dereference after '->'"
  | .derefForm => "'*', '[' or '\x7b' after postfix sigil"
  | .labelledStatement => "statement after label"
  | .condition => "condition"
  | .conditionParen => "'(' after keyword"
  | .loopParen => "'(' after loop variable"
  | .loopClauses => "three clauses in 'for (;;)'"
  | .parameter => "parameter"
  | .parameterEnd => "'=' or ','"
  | .subName => "subroutine name"
  | .className => "class name"
  | .fieldVariable => "field variable"
  | .methodName => "method name"
  | .packageName => "package name"
  | .moduleName => "module name or version"
  | .catchVariable => "catch variable"

/-- Why lexemes could not be read as a tree. -/
inductive SyntaxCause where
  /-- A scan fault inside the statement. -/
  | scan (cause : ScanCause)
  /-- An opening delimiter without its partner. -/
  | unclosed (delimiter : String)
  /-- A required piece is missing; `found` is what stands there instead, if anything does. -/
  | expected (wanted : Construct) (found : Option String)
  /-- An operator without its right operand. -/
  | missingOperand (operator : String)
  /-- A question mark without its colon. -/
  | missingTernaryColon
  /-- A branch of a ternary with nothing in it. -/
  | emptyBranch
  /-- A lexeme where no production applies. -/
  | unexpected (found : String)
  /-- Nothing where an expression is required. -/
  | unexpectedEnd
  /-- A continuing clause with nothing to continue. -/
  | dangling (keyword : String)
deriving DecidableEq, Repr, Inhabited

/-- The wording of a cause. -/
def SyntaxCause.message : SyntaxCause → String
  | .scan cause => cause.message
  | .unclosed delimiter => "unclosed '" ++ delimiter ++ "'"
  | .expected wanted none => "expected " ++ wanted.text
  | .expected wanted (some found) => "expected " ++ wanted.text ++ ", got '" ++ found ++ "'"
  | .missingOperand operator => "missing right operand for '" ++ operator ++ "'"
  | .missingTernaryColon => "missing ':' in ternary"
  | .emptyBranch => "empty ternary branch"
  | .unexpected found => "unexpected '" ++ found ++ "'"
  | .unexpectedEnd => "unexpected end of input"
  | .dangling keyword => "'" ++ keyword ++ "' without a preceding block"

/-- A fault met while reading a tree. -/
structure SyntaxFault where
  cause : SyntaxCause
  position : Position
deriving DecidableEq, Repr, Inhabited

/-- The wording of a syntax fault with its place. -/
def SyntaxFault.message (fault : SyntaxFault) : String :=
  fault.cause.message ++ " " ++ fault.position.long

/-- A scan fault as it appears in a tree. -/
def ScanFault.inTree (fault : ScanFault) : SyntaxFault :=
  ⟨.scan fault.cause, fault.position⟩

end SigilScript
