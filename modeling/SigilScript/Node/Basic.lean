import SigilScript.Fault
import SigilScript.Precedence

/-! # Syntax trees

A statement or an expression is one tree. Parts that the language makes optional are optional
here; parts that it requires are always present, if need be as a fault node in the place of what
is missing. The functions that build trees make the choices that depend on more than one part.
-/

namespace SigilScript

/-- Whether a test asks for truth or for falsehood. -/
inductive Polarity where
  | affirmed
  | negated
deriving DecidableEq, Repr, Inhabited

/-- How a jump leaves the round of a loop. -/
inductive Jump where
  | last
  | next
  | redo
deriving DecidableEq, Repr, Inhabited

/-- How a list is printed. -/
inductive Output where
  | print
  | say
deriving DecidableEq, Repr, Inhabited

/-- How a message is raised. -/
inductive Alarm where
  | die
  | warn
deriving DecidableEq, Repr, Inhabited

/-- How a sequence of items is collected. -/
inductive Collection where
  | array
  | hash
  | list
deriving DecidableEq, Repr, Inhabited

/-- How a container is indexed. -/
inductive Access where
  | arrayElement
  | arraySlice
  | hashElement
  | hashSlice
deriving DecidableEq, Repr, Inhabited

/-- Which statement has a head in parentheses and a block. -/
inductive Topic where
  | given
  | whenever
  | matching
  | case
deriving DecidableEq, Repr, Inhabited

/-- One further condition of a conditional, with its block. -/
structure Clause (Tree : Type) where
  condition : Tree
  body : List Tree
deriving DecidableEq, Repr, Inhabited

/-- What handles a raised message: the variable that holds it, if any, and a block. -/
structure Handler (Tree : Type) where
  holder : Option Tree
  body : List Tree
deriving DecidableEq, Repr, Inhabited

/-- A statement or an expression. -/
inductive Node where
  /-- A number in the spelling of the source. -/
  | number (spelling : String)
  | string (value : String) (interpolated : Bool)
  | boolean (value : Bool)
  /-- A variable, its name without the sigil. -/
  | var (sigil : Sigil) (name : String)
  /-- A name that is used as a value. -/
  | bareword (name : String)
  | binaryOp (op : String) (left right : Node)
  /-- An operator before its operand, or after it when `trailing`. -/
  | unaryOp (op : String) (operand : Node) (trailing : Bool)
  | ternary (condition whenTrue whenFalse : Node)
  | declaration (declarator : String) (targets : List Node) (initializer : Option Node)
  | assignment (op : String) (target value : Node)
  | conditional (polarity : Polarity) (condition : Node) (body : List Node)
      (clauses : List (Clause Node)) (otherwise : Option (List Node))
  | whileLoop (polarity : Polarity) (label : Option String) (condition : Node) (body : List Node)
  /-- A loop over a list; without a variable it is over the topic. -/
  | foreachLoop (label declarator : Option String) (holder : Option Node) (iterable : Node)
      (body : List Node)
  | forLoop (label : Option String) (init condition step : Option Node) (body : List Node)
  | block (label : Option String) (body : List Node)
  | doBlock (body : List Node)
  | call (name : String) (args : List Node)
  | codeCall (target : Node) (args : List Node)
  /-- A named or anonymous function, or a phase block. -/
  | sub (name : Option String) (params body : List Node)
  | parameter (holder : Node) (default : Option Node)
  | returned (value : Option Node)
  | jump (kind : Jump) (label : Option String)
  | output (kind : Output) (filehandle : Option Node) (args : List Node)
  | alarm (kind : Alarm) (args : List Node)
  | collection (kind : Collection) (items : List Node)
  /-- An element or a slice; a container that is named directly carries the container's sigil. -/
  | access (kind : Access) (base index : Node)
  | dereference (sigil : Sigil) (target : Node)
  | postfixDeref (base : Node) (sigil : Sigil)
  | postfixSlice (base : Node) (sigil : Sigil) (indices : Node)
  | methodCall (invocant : Node) (method : String) (args : List Node)
  | classDecl (name : String) (version parent : Option String) (body : Option (List Node))
  | fieldDecl (holder : Node) (attributes : List String) (default : Option Node)
  | methodDecl (name : String) (params body : List Node)
  | packageDecl (name : String) (version : Option String) (body : Option (List Node))
  | useDecl (negated : Bool) (module version : Option String) (imports : List Node)
  | require (target : Node)
  | tryBlock (body : List Node) (handler : Option (Handler Node)) (final : Option (List Node))
  | topic (kind : Topic) (head : Node) (body : List Node)
  | defaultBlock (body : List Node)
  | regex (pattern flags : String)
  | patternMatch (op : String) (target pattern : Node)
  | error (fault : SyntaxFault)
deriving Repr, Inhabited

namespace Node

/-- The name of a kind of tree. -/
def kindName : Node → String
  | .number .. => "Number"
  | .string .. => "String"
  | .boolean .. => "Boolean"
  | .var .. => "Variable"
  | .bareword .. => "Bareword"
  | .binaryOp .. => "BinaryOp"
  | .unaryOp .. => "UnaryOp"
  | .ternary .. => "Ternary"
  | .declaration .. => "Declaration"
  | .assignment .. => "Assignment"
  | .conditional .affirmed .. => "If"
  | .conditional .negated .. => "Unless"
  | .whileLoop .affirmed .. => "While"
  | .whileLoop .negated .. => "Until"
  | .foreachLoop .. => "Foreach"
  | .forLoop .. => "For"
  | .block .. => "Block"
  | .doBlock .. => "DoBlock"
  | .call .. => "Call"
  | .codeCall .. => "CodeCall"
  | .sub .. => "Sub"
  | .parameter .. => "Parameter"
  | .returned .. => "Return"
  | .jump .last _ => "Last"
  | .jump .next _ => "Next"
  | .jump .redo _ => "Redo"
  | .output .print .. => "Print"
  | .output .say .. => "Say"
  | .alarm .die _ => "Die"
  | .alarm .warn _ => "Warn"
  | .collection .array _ => "ArrayLiteral"
  | .collection .hash _ => "HashLiteral"
  | .collection .list _ => "List"
  | .access .arrayElement .. => "ArrayAccess"
  | .access .arraySlice .. => "ArraySlice"
  | .access .hashElement .. => "HashAccess"
  | .access .hashSlice .. => "HashSlice"
  | .dereference .. => "Dereference"
  | .postfixDeref .. => "PostfixDeref"
  | .postfixSlice .. => "PostfixDerefSlice"
  | .methodCall .. => "MethodCall"
  | .classDecl .. => "Class"
  | .fieldDecl .. => "Field"
  | .methodDecl .. => "Method"
  | .packageDecl .. => "Package"
  | .useDecl .. => "Use"
  | .require .. => "Require"
  | .tryBlock .. => "Try"
  | .topic .given .. => "Given"
  | .topic .whenever .. => "When"
  | .topic .matching .. => "Match"
  | .topic .case .. => "Case"
  | .defaultBlock .. => "Default"
  | .regex .. => "RegexLiteral"
  | .patternMatch .. => "PatternMatch"
  | .error .. => "Error"

/-- Whether a tree is a fault. -/
def isError : Node → Bool
  | .error _ => true
  | _ => false

/-! ## Building trees -/

/-- A string that interpolates nothing. -/
def plain (value : String) : Node := .string value false

/-- A comma list. -/
def list (items : List Node) : Node := .collection .list items

/-- A fault of this cause at this place. -/
def fault (cause : SyntaxCause) (position : Position) : Node := .error ⟨cause, position⟩

/-- Two operands joined by an operator: an assignment, a pattern match, or any other operation. -/
def binary (op : String) (left right : Node) : Node :=
  if isAssignment op then .assignment op left right
  else if op = "=~" || op = "!~" then .patternMatch op left right
  else .binaryOp op left right

/-- An operator before its operand. -/
def leading (op : String) (operand : Node) : Node := .unaryOp op operand false

/-- An operator after its operand. -/
def trailing (op : String) (operand : Node) : Node := .unaryOp op operand true

/-- A declaration without an initializer. -/
def declare (declarator : String) (targets : List Node) : Node :=
  .declaration declarator targets none

/-- Give a declaration its initializer; any other tree stays as it is. -/
def initialized (node value : Node) : Node :=
  match node with
  | .declaration declarator targets _ => .declaration declarator targets (some value)
  | other => other

/-- A conditional with one condition and nothing else. -/
def conditionalOf (polarity : Polarity) (condition : Node) (body : List Node) : Node :=
  .conditional polarity condition body [] none

/-- Add a further condition to a conditional; any other tree stays as it is. -/
def elsif (node condition : Node) (body : List Node) : Node :=
  match node with
  | .conditional polarity first firstBody clauses otherwise =>
    .conditional polarity first firstBody (clauses ++ [⟨condition, body⟩]) otherwise
  | other => other

/-- Set what a conditional does otherwise; any other tree stays as it is. -/
def otherwise (node : Node) (body : List Node) : Node :=
  match node with
  | .conditional polarity first firstBody clauses _ =>
    .conditional polarity first firstBody clauses (some body)
  | other => other

/-- Label a loop or a bare block; any other tree stays as it is. -/
def labelled (node : Node) (label : String) : Node :=
  match node with
  | .whileLoop polarity _ condition body => .whileLoop polarity (some label) condition body
  | .foreachLoop _ declarator holder iterable body =>
    .foreachLoop (some label) declarator holder iterable body
  | .forLoop _ init condition step body => .forLoop (some label) init condition step body
  | .block _ body => .block (some label) body
  | other => other

end Node

end SigilScript
