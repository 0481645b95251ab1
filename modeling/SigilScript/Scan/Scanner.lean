import SigilScript.Lexeme
import SigilScript.Scan.Context
import SigilScript.Scan.Gap
import SigilScript.Scan.Literal
import SigilScript.Scan.Number

/-! # Scanning tokens

A scanner reads one token at a time and looks no further ahead than the token asks for. A literal
without its end is a fault at its first character, and scanning resumes right after its opening
delimiter; a character that begins no token is a fault of its own. The words `__END__` and
`__DATA__` end the program text.
-/

namespace SigilScript

/-- One item and the reader after it. -/
abbrev Reading := Scanned × Reader

namespace Reader

/-- The token that begins where a reader stands. -/
def token (reader : Reader) (kind : TokenKind) (text : List Char) : Scanned :=
  .ok ⟨kind, String.ofList text, reader.position⟩

/-- The fault at the place where a reader stands. -/
def fault (reader : Reader) (cause : ScanCause) : Scanned := .error ⟨cause, reader.position⟩

/-- Read the body of a literal that begins at `reader` and whose opening delimiter ends at
`opened`. Without its end the whole text is pulled, and reading resumes at `opened`. -/
def literal (reader opened : Reader) (cause : ScanCause) (body : Option Body)
    (scanned : List Char → Reader → Reading) : Reading :=
  match body with
  | some body => scanned body.text (opened.skip body.length)
  | none => (reader.fault cause, opened.exhaust)

end Reader

/-- The operators, longest spelling first, so that the first that fits is the longest. -/
def operatorSpellings : List String :=
  ["<=>", "**=", "||=", "&&=", "//=", "...", "<<=", ">>=", "..", "->", "=>", "==", "!=", "<=",
   ">=", "++", "--", "**", "=~", "!~", "&&", "||", "//", "+=", "-=", "*=", "/=", ".=", "%=", "|=",
   "&=", "^=", "<<", ">>", "~~", "+", "-", "*", "/", "%", ".", "=", "<", ">", "!", "~", "\\", "?",
   ":", ",", ";", "(", ")", "[", "]", "\x7b", "\x7d", "&", "|", "^"]

/-- The kind of a token spelled as an operator. -/
def TokenKind.ofOperator (spelling : String) : TokenKind :=
  match spelling with
  | "(" => .openParen
  | ")" => .closeParen
  | "[" => .openBracket
  | "]" => .closeBracket
  | "\x7b" => .openBrace
  | "\x7d" => .closeBrace
  | "," => .comma
  | "=>" => .fatComma
  | ";" => .semicolon
  | "?" => .question
  | ":" => .colon
  | "->" => .arrow
  | _ => .operator

namespace Reader

/-- Read an operator in a window of three characters. -/
def operator (reader : Reader) : Reading :=
  let looked := reader.look 3
  match operatorSpellings.find? fun spelling => spelling.toList.isPrefixOf looked.unread with
  | some spelling =>
    (.ok ⟨.ofOperator spelling, spelling, reader.position⟩, looked.skip spelling.length)
  | none => (reader.fault (.unexpectedCharacter (looked.unread.headD '\x00')), looked.skip 1)

/-- Read a number. -/
def numberToken (reader : Reader) : Reading :=
  let (text, after) := reader.number
  (reader.token .number text, after)

/-- Read a plain quote that begins with this character. -/
def quoted (reader : Reader) (quote : Char) : Reading :=
  let opened := reader.skip 1
  literal reader opened .unterminatedString (quotedBody? quote opened.unread) fun text after =>
    (reader.token (.string (quote = '"')) text, after)

/-- Read a string delimited at will; `opened` stands after the opening delimiter. -/
def delimitedString (reader opened : Reader) (opener : Char) (interpolated : Bool) : Reading :=
  literal reader opened .unterminatedString (textBody? opener opened.unread) fun text after =>
    (reader.token (.string interpolated) (decodeEscapes interpolated text), after)

/-- Read a word list; `opened` stands after the opening delimiter. -/
def wordList (reader opened : Reader) (opener : Char) : Reading :=
  literal reader opened .unterminatedQuoteWords (textBody? opener opened.unread) fun text after =>
    (reader.token (.quoteWords ((words text).map String.ofList)) text, after)

/-- Read a pattern and its flags; `opened` stands after the opening delimiter. -/
def pattern (reader opened : Reader) (opener : Char) : Reading :=
  literal reader opened .unterminatedRegex (patternBody? opener opened.unread) fun text after =>
    let (flags, after) := after.run Char.isAlpha
    (reader.token (.regex (String.ofList flags)) text, after)

/-- Read a word: the end of the program, a quoting word with its literal, a version or a name. A
word after an arrow quotes nothing. -/
def word (reader : Reader) (previous : Option Category) : Option Reading :=
  let (text, after) := reader.name
  let spelling := String.ofList text
  if spelling = "__END__" || spelling = "__DATA__" then none
  else
    match after.unread.head?.filter fun c => previous ≠ some .arrow && isQuoteDelimiter c with
    | some opener =>
      let opened := after.skip 1
      match spelling with
      | "q" => some (delimitedString reader opened opener false)
      | "qq" => some (delimitedString reader opened opener true)
      | "qw" => some (wordList reader opened opener)
      | "m" => some (pattern reader opened opener)
      | "qr" => some (pattern reader opened opener)
      | _ => some (plainWord reader after text)
    | none => some (plainWord reader after text)
where
  /-- A version or a name whose first part is `text`. -/
  plainWord (reader after : Reader) (text : List Char) : Reading :=
    if opensVersion text then
      let (parts, after) := after.versionParts
      (reader.token .number (text ++ parts), after)
    else (reader.token .identifier text, after)

/-- The reader after the end-of-program word that begins here. -/
def afterEndWord (reader : Reader) : Reader := reader.name.2

/-- Read what a sigil begins: a variable, a sigil that dereferences what follows, or for a percent
sign without either an operator. -/
def sigil (reader : Reader) (sigil : Sigil) : Reading :=
  let looked := reader.look 3
  let next := looked.peek? 1
  let afterNext := looked.peek? 2
  let dereference (text : List Char) : Reading :=
    (reader.token (.derefSigil sigil) text, looked.skip text.length)
  let named (opening : List Char) : Reading :=
    let (name, after) := (looked.skip opening.length).name
    (reader.token (.var sigil) (opening ++ name), after)
  let special (c : Char) : Reading :=
    if c.isDigit then
      let (digits, after) := (looked.skip 2).run isDigitOrUnderscore
      (reader.token (.var sigil) (sigil.char :: c :: digits), after)
    else (reader.token (.var sigil) [sigil.char, c], looked.skip 2)
  if next.any isNameStart then named [sigil.char]
  else if next = some ':' ∧ afterNext = some ':' then named [sigil.char, ':', ':']
  else if next.any (· ∈ ['*', '[', '{']) then dereference [sigil.char]
  else if next = some '$' ∧
      (sigil ≠ .scalar ∨ afterNext.any fun c => isNameStart c || c = '$' || c = '{') then
    dereference [sigil.char]
  else
    match sigil, next with
    | .scalar, some c =>
      if c.isDigit || c ∈ ['@', '!', '&', '/', '\\', '$'] then special c
      else if c = '#' ∧ afterNext.any isNameStart then named ['$', '#']
      else if c = '#' ∧ afterNext.any (fun c => c = '{' || c = '$') then dereference ['$', '#']
      else (reader.fault (.unexpectedCharacter '$'), looked.skip (if c = '#' then 2 else 1))
    | .hash, _ => looked.operator
    | sigil, next =>
      (reader.fault (.unexpectedCharacter sigil.char),
        looked.skip (if next = some '#' then 2 else 1))

/-- Read the token that begins with this character; nothing at the end of the program text. -/
def scan (reader : Reader) (context : Context) (c : Char) : Option Reading :=
  if c.isDigit then some reader.numberToken
  else if c = '"' || c = '\'' then some (reader.quoted c)
  else if isNameStart c then reader.word context.previous
  else if c = '$' then some (reader.sigil .scalar)
  else if c = '@' then some (reader.sigil .array)
  else if context.afterOperand then some reader.operator
  else if c = '.' then
    let looked := reader.look 2
    some (if (looked.peek? 1).any Char.isDigit then looked.numberToken else looked.operator)
  else if c = '%' then some (reader.sigil .hash)
  else if c = '/' then some (pattern reader (reader.skip 1) '/')
  else some reader.operator

end Reader

/-- The state between two tokens. -/
structure Scanner where
  reader : Reader
  context : Context
  /-- The end of the program text was reached. -/
  finished : Bool
deriving DecidableEq, Repr, Inhabited

namespace Scanner

/-- Start scanning a text. -/
def start (text : List Char) : Scanner := ⟨.start text, .start, false⟩

/-- The next item, and the state after it; a fault leaves the context as it was. -/
def next (scanner : Scanner) : Option Scanned × Scanner :=
  if scanner.finished then (none, scanner)
  else
    let reader := scanner.reader.skipGap
    match reader.unread with
    | [] => (none, { scanner with reader, finished := true })
    | c :: _ =>
      match reader.scan scanner.context c with
      | none => (none, { scanner with reader := reader.afterEndWord, finished := true })
      | some (.error fault, after) => (some (.error fault), { scanner with reader := after })
      | some (.ok token, after) =>
        (some (.ok token), ⟨after, scanner.context.next token, false⟩)

/-- The answers of the first `calls` calls of `next`, up to the first that is none. -/
def trace : Nat → Scanner → List (Option Scanned × Scanner)
  | 0, _ => []
  | calls + 1, scanner =>
    match scanner.next with
    | (none, after) => [(none, after)]
    | (some item, after) => (some item, after) :: trace calls after

end Scanner

/-- The calls that scan a whole text: an item takes a character at least. -/
def scanTrace (text : List Char) : List (Option Scanned × Scanner) :=
  (Scanner.start text).trace (text.length + 1)

/-- Every item of a text, in order; scanning goes on after a fault. -/
def scan (text : List Char) : List Scanned := (scanTrace text).filterMap Prod.fst

/-- The tokens of a text, or the first fault in it. -/
def tokenize (text : List Char) : Except ScanFault (List Token) := (scan text).mapM id

end SigilScript
