import SigilScript.Text.Blank

/-! # Classes of characters

The classes that decide how a token begins and how far it goes. Names and numbers are ASCII.
-/

namespace SigilScript

/-- Whether a character is an ASCII letter or an underscore, as a name begins. -/
def isNameStart (c : Char) : Bool := c.isAlpha || c = '_'

/-- Whether a character may go on in a name. -/
def isNameChar (c : Char) : Bool := c.isAlphanum || c = '_'

/-- Whether a character may go on in a run of digits. -/
def isDigitOrUnderscore (c : Char) : Bool := c.isDigit || c = '_'

theorem isDigitOrUnderscore_of_isDigit {c : Char} (digit : c.isDigit = true) :
    isDigitOrUnderscore c = true := by
  rw [isDigitOrUnderscore, digit, Bool.true_or]

/-- Whether a character is a hexadecimal digit. -/
def isHexDigit (c : Char) : Bool :=
  c.isDigit || ('a' ≤ c && c ≤ 'f') || ('A' ≤ c && c ≤ 'F')

/-- Whether a character may go on in a number with a radix. -/
def isRadixDigit (c : Char) : Bool := isHexDigit c || c = '_'

/-- Whether a character separates tokens. -/
def isGapSpace (c : Char) : Bool :=
  c = ' ' || c = '\t' || c = '\n' || c = '\r' || c = '\x0c'

/-- The character that closes what another opens; a character without a partner closes itself. -/
def closingDelimiter (opener : Char) : Char :=
  if opener = '(' then ')'
  else if opener = '[' then ']'
  else if opener = '{' then '}'
  else if opener = '<' then '>'
  else opener

/-- Whether a character may delimit a literal right after a quoting word. -/
def isQuoteDelimiter (c : Char) : Bool :=
  !c.isAlphanum && !isBlank c && c ∉ ['_', ',', ';', '=', ')', ']', '}', '>']

end SigilScript
