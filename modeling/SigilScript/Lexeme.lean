import SigilScript.Category
import SigilScript.Fault

/-! # Lexemes

A lexeme is a token with its category. A stream of scanned items becomes a stream of lexemes by
looking back one token; faults between tokens do not count as tokens there.
-/

namespace SigilScript

/-- A token with the role it plays where it stands. -/
structure Lexeme where
  token : Token
  category : Category
deriving DecidableEq, Repr, Inhabited

namespace Lexeme

/-- The text of the token. -/
def text (lexeme : Lexeme) : String := lexeme.token.text

/-- The place of the token. -/
def position (lexeme : Lexeme) : Position := lexeme.token.position

/-- Whether the lexeme has this role and this spelling. -/
def isSpelled (lexeme : Lexeme) (category : Category) (text : String) : Bool :=
  lexeme.category = category && lexeme.text = text

/-- Whether the lexeme is an operator with this spelling. -/
def isOperator (lexeme : Lexeme) (spelling : String) : Bool :=
  (lexeme.category = .binaryOperator || lexeme.category = .unaryOperator) &&
    lexeme.text = spelling

/-- Whether the token is a word, whatever role it plays. -/
def isWord (lexeme : Lexeme) : Bool := lexeme.token.kind = .identifier

/-- Whether the token is the comma that quotes the word before it. -/
def isFatComma (lexeme : Lexeme) : Bool := lexeme.token.kind = .fatComma

end Lexeme

/-- The lexeme of a token that follows a token of role `previous`. -/
def Token.classify (token : Token) (previous : Option Category) : Lexeme :=
  ⟨token, token.categoryAfter previous⟩

/-- One item of a scan: a token, or a fault in its place. -/
abbrev Scanned := Except ScanFault Token

/-- One item of a classified scan. -/
abbrev Classified := Except ScanFault Lexeme

/-- Classify a scan whose last token before it had role `previous`. -/
def classifyAfter (previous : Option Category) : List Scanned → List Classified
  | [] => []
  | .error fault :: items => .error fault :: classifyAfter previous items
  | .ok token :: items =>
    let lexeme := token.classify previous
    .ok lexeme :: classifyAfter (some lexeme.category) items

/-- Classify a whole scan. -/
def classifyAll (items : List Scanned) : List Classified := classifyAfter none items

/-- The lexemes of a classified scan, faults dropped. -/
def lexemesOf (items : List Classified) : List Lexeme :=
  items.filterMap Except.toOption

end SigilScript
