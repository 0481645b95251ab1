import SigilScript.Text.Extender
import SigilScript.Text.Unprintable

/-! # Quoted text

Two ways to write a text between quotes. Single quotes escape only themselves and the backslash.
Double quotes escape also whatever would not be seen, by a short escape or by its code point.
-/

namespace SigilScript

/-- A text between single quotes: a quote and a backslash get a backslash in front. -/
def singleQuoted (text : String) : String :=
  let escape (c : Char) : List Char := if c = '\'' || c = '\\' then ['\\', c] else [c]
  "'" ++ String.ofList (text.toList.flatMap escape) ++ "'"

/-- The digits of a code point in lower-case hexadecimal, without leading zeros. -/
def hexDigits (code : Nat) : List Char := Nat.toDigits 16 code

/-- How a character is written between double quotes. -/
def doubleQuotedForm (c : Char) : List Char :=
  match c with
  | '\x00' => ['\\', '0']
  | '\t' => ['\\', 't']
  | '\n' => ['\\', 'n']
  | '\r' => ['\\', 'r']
  | '"' => ['\\', '"']
  | '\\' => ['\\', '\\']
  | other =>
    if isUnprintable other || isExtender other then
      ['\\', 'u', '{'] ++ hexDigits other.toNat ++ ['}']
    else [other]

/-- A text between double quotes. -/
def doubleQuoted (text : String) : String :=
  "\"" ++ String.ofList (text.toList.flatMap doubleQuotedForm) ++ "\""

end SigilScript
