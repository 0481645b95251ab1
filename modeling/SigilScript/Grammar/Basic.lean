import SigilScript.Nesting
import SigilScript.Node.Basic

/-! # Productions

A production reads the front of a list of lexemes and returns what it read with the lexemes that
are left. Productions need one another, but only on strictly fewer lexemes than they were given
themselves: what is inside a group, behind an operator, after the first operand. So a grammar is a
record of productions, one step makes from a grammar one that reads a lexeme more, and the grammar
at level `n` reads every list of fewer than `n` lexemes.

This module holds what productions ask of single lexemes, what is read without the grammar, and the
record.
-/

namespace SigilScript

/-- What a production read, and the lexemes left. -/
abbrev Parse (α : Type) := α × List Lexeme

/-! ## Faults -/

/-- Something required is missing: the fault stands at what was found, or at the anchor where
nothing was. -/
def Node.expected (wanted : Construct) (found : Option Lexeme) (anchor : Position) : Node :=
  .fault (.expected wanted (found.map Lexeme.text)) ((found.map Lexeme.position).getD anchor)

/-- A lexeme where no production applies. -/
def Lexeme.unexpected (lexeme : Lexeme) : Node :=
  .fault (.unexpected lexeme.text) lexeme.position

/-- An operator without its right operand. -/
def Lexeme.missingOperand (lexeme : Lexeme) : Node :=
  .fault (.missingOperand lexeme.text) lexeme.position

/-- A tree that was to take every lexeme: a lexeme left over is a fault in its place. -/
def Node.finish (parse : Parse Node) : Node :=
  match parse.2 with
  | [] => parse.1
  | extra :: _ => extra.unexpected

/-! ## What lexemes ask for -/

/-- Whether the next lexeme plays this role. -/
def nextIs (category : Category) (rest : List Lexeme) : Bool :=
  rest.head?.any fun lexeme => lexeme.category = category

/-- The place of the last of several lexemes. -/
def lastPosition (lexeme : Lexeme) (rest : List Lexeme) : Position :=
  (rest.getLastD lexeme).position

/-- A variable spelled with its sigil; a spelling without it is a name already. -/
def Node.ofSpelling (sigil : Sigil) (spelling : String) : Node :=
  match spelling.toList with
  | c :: name => .var sigil (if c = sigil.char then String.ofList name else spelling)
  | [] => .var sigil spelling

/-- The variable that a lexeme spells. -/
def Lexeme.asVar? (lexeme : Lexeme) : Option Node :=
  match lexeme.token.kind with
  | .var sigil => some (.ofSpelling sigil lexeme.text)
  | _ => none

/-- Whether a lexeme can begin an argument of a list operator. -/
def Lexeme.startsOperand (lexeme : Lexeme) : Bool :=
  match lexeme.category with
  | .literal | .identifier | .builtin | .var | .postfixDerefSigil | .leftParen | .leftBracket
  | .leftBrace | .declarator | .unaryOperator => true
  | .keyword =>
    lexeme.text ∈
      ["sub", "do", "require", "return", "die", "warn", "print", "say", "last", "next", "redo"]
  | .binaryOperator => lexeme.text = "-" || lexeme.text = "+"
  | _ => false

/-- Whether a lexeme can begin the operand of a builtin that takes at most one: a brace or a sign
after it belongs to the expression around it. -/
def Lexeme.startsNamedOperand (lexeme : Lexeme) : Bool :=
  lexeme.startsOperand && lexeme.category ≠ .leftBrace && lexeme.category ≠ .binaryOperator

/-- The string that a word, or a word behind a minus sign, spells as a key. -/
def barewordKey? : List Lexeme → Option String
  | [word] => if word.isWord then some word.text else none
  | [minus, word] =>
    if minus.isOperator "-" && word.isWord then some ("-" ++ word.text) else none
  | _ => none

/-- Whether a word is followed by what makes it an operand and no filehandle. -/
def Lexeme.rulesOutFilehandle (lexeme : Lexeme) : Bool :=
  match lexeme.category with
  | .comma | .leftParen | .arrow | .binaryOperator | .question => true
  | _ => false

/-- Whether an operator gives a parameter or a field its default. -/
def Lexeme.isDefaultOperator (lexeme : Lexeme) : Bool :=
  lexeme.category = .binaryOperator && lexeme.text ∈ ["=", "//=", "||="]

/-- Whether a keyword, behind a statement, makes it conditional or repeats it. -/
def Lexeme.isModifier (lexeme : Lexeme) : Bool :=
  lexeme.category = .controlKeyword &&
    lexeme.text ∈ ["if", "unless", "while", "until", "for", "foreach"]

/-! ## Reading without the grammar -/

/-- Read the group that `opener` opens, or report that it has no end. -/
def readGroup (opener : Lexeme) (rest : List Lexeme) (inside : List Lexeme → α)
    (unclosed : SyntaxFault → α) : Parse α :=
  match takeGroup opener rest with
  | (.ok lexemes, after) => (inside lexemes, after)
  | (.error fault, after) => (unclosed fault, after)

/-- Read a word as a name. -/
def readName (wanted : Construct) (anchor : Position) :
    List Lexeme → Except Node (Parse String)
  | word :: rest =>
    if word.isWord then .ok (word.text, rest)
    else .error (.expected wanted (some word) anchor)
  | [] => .error (.expected wanted none anchor)

/-- Read a number as a version, if one follows. -/
def readVersion : List Lexeme → Parse (Option String)
  | version :: rest =>
    if version.token.kind = .number then (some version.text, rest) else (none, version :: rest)
  | [] => (none, [])

/-- An attribute: a name behind a colon, and the lexemes of its group, if it has one. -/
structure Attribute where
  name : String
  args : Option (List Lexeme)
deriving DecidableEq, Repr, Inhabited

namespace Attribute

/-- The spelling of an attribute in a listing. -/
def text (mark : Attribute) : String :=
  match mark.args with
  | none => mark.name
  | some args => mark.name ++ "(" ++ " ".intercalate (args.map Lexeme.text) ++ ")"

end Attribute

/-- The group of an attribute; one without an end is dropped with all that follows. -/
def readAttributeGroup : List Lexeme → Parse (Option (List Lexeme))
  | opener :: rest =>
    if opener.category = .leftParen then readGroup opener rest some fun _ => none
    else (none, opener :: rest)
  | [] => (none, [])

/-- The attributes at the front of a list, `count` of them at most. -/
def readAttributesUpTo : Nat → List Lexeme → Parse (List Attribute)
  | count + 1, colon :: word :: rest =>
    if colon.category = .colon && word.isWord then
      let (args, rest) := readAttributeGroup rest
      let (attributes, rest) := readAttributesUpTo count rest
      (⟨word.text, args⟩ :: attributes, rest)
    else ([], colon :: word :: rest)
  | _, rest => ([], rest)

/-- The attributes at the front of a list: each takes two lexemes at least. -/
def readAttributes (rest : List Lexeme) : Parse (List Attribute) :=
  readAttributesUpTo rest.length rest

/-! ## The record -/

/-- The productions that others lean on. -/
structure Grammar where
  /-- All lexemes as one expression or one comma list; the place is that of an empty one. -/
  whole : Position → List Lexeme → Node
  /-- An operand and the operators after it that bind at this level or tighter. -/
  operation : Nat → Lexeme → List Lexeme → Parse Node
  /-- The operators after an operand that bind at this level or tighter. -/
  climb : Nat → Node → List Lexeme → Parse Node
  /-- An operand with the operators before it. -/
  operand : Lexeme → List Lexeme → Parse Node
  /-- An operand without anything around it. -/
  primary : Lexeme → List Lexeme → Parse Node
  /-- The subscripts, arrows and steps after an operand. -/
  chain : Node → List Lexeme → Parse Node
  /-- The further items of a comma list, from its comma on. -/
  items : List Lexeme → Parse (List Node)
  /-- The arguments of a list operator. -/
  arguments : List Lexeme → Parse (List Node)
  /-- The attributes of a declaration. -/
  attributes : List Lexeme → Parse (List Attribute)
  /-- The further conditions of a conditional; the place is that of its last lexeme. -/
  clauses : Position → List Lexeme → Parse (List (Clause Node))
  /-- All lexemes as a list of statements. -/
  statements : List Lexeme → List Node

/-- The grammar that reads nothing but attributes, which hold no trees: what a tree is asked for is
a fault. -/
def Grammar.empty : Grammar where
  whole anchor _ := .fault .unexpectedEnd anchor
  operation _ lexeme rest := (.fault .unexpectedEnd lexeme.position, rest)
  climb _ node rest := (node, rest)
  operand lexeme rest := (.fault .unexpectedEnd lexeme.position, rest)
  primary lexeme rest := (.fault .unexpectedEnd lexeme.position, rest)
  chain node rest := (node, rest)
  items rest := ([], rest)
  arguments rest := ([], rest)
  attributes := readAttributes
  clauses _ rest := ([], rest)
  statements lexemes := lexemes.map Lexeme.unexpected

end SigilScript
