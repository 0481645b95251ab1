/-! # Tokens

A source text is read as a sequence of tokens. A token has a kind, the text that the kind gives
meaning to, and the place of its first character. Kinds carry what cannot be read off the text:
whether a string interpolates, the words of a word list, the flags of a pattern, the sigil of a
variable.
-/

namespace SigilScript

/-- A place in a text: lines and columns count from one, and columns count characters. -/
structure Position where
  line : Nat
  column : Nat
deriving DecidableEq, Repr, Inhabited

namespace Position

/-- The place of the first character. -/
def start : Position := ⟨1, 1⟩

/-- The place after a character: a newline opens the next line. -/
def next (position : Position) (c : Char) : Position :=
  if c = '\n' then ⟨position.line + 1, 1⟩ else ⟨position.line, position.column + 1⟩

/-- The place after a run of characters. -/
def after (position : Position) (text : List Char) : Position :=
  text.foldl next position

/-- The short form `line:column`. -/
def short (position : Position) : String :=
  s!"{position.line}:{position.column}"

/-- The form that closes every fault message. -/
def long (position : Position) : String :=
  s!"at line {position.line}, column {position.column}"

end Position

/-- The punctuation that opens a variable and names its shape. -/
inductive Sigil where
  | scalar
  | array
  | hash
deriving DecidableEq, Repr, Inhabited

namespace Sigil

/-- The sigil that a character spells. -/
def ofChar? : Char → Option Sigil
  | '$' => some .scalar
  | '@' => some .array
  | '%' => some .hash
  | _ => none

/-- The spelling of a sigil. -/
def char : Sigil → Char
  | .scalar => '$'
  | .array => '@'
  | .hash => '%'

/-- The spelling of a sigil as a text. -/
def text (sigil : Sigil) : String :=
  String.singleton sigil.char

theorem ofChar?_char (sigil : Sigil) : ofChar? sigil.char = some sigil := by
  cases sigil <;> rfl

end Sigil

/-- What a token is. -/
inductive TokenKind where
  /-- A numeric literal or a version such as `v5.36`. -/
  | number
  /-- A quoted string; the text is its decoded body. -/
  | string (interpolated : Bool)
  /-- A list of words; the text is the raw body. -/
  | quoteWords (words : List String)
  /-- A pattern; the text is the pattern. -/
  | regex (flags : String)
  /-- A name, a keyword or a name qualified by `::`. -/
  | identifier
  /-- A variable; the text is the whole spelling with its sigil. -/
  | var (sigil : Sigil)
  /-- A sigil that stands before what it dereferences. -/
  | derefSigil (sigil : Sigil)
  /-- Any operator without a kind of its own. -/
  | operator
  | openParen
  | closeParen
  | openBracket
  | closeBracket
  | openBrace
  | closeBrace
  | comma
  | fatComma
  | semicolon
  | question
  | colon
  | arrow
deriving DecidableEq, Repr, Inhabited

/-- One token, placed at its first character. -/
structure Token where
  kind : TokenKind
  text : String
  position : Position
deriving DecidableEq, Repr, Inhabited

end SigilScript
