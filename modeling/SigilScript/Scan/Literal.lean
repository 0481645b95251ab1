import SigilScript.Scan.Characters

/-! # Quoted and delimited literals

The body of a literal runs from its opening delimiter to the closer that matches it. A plain
quote decodes its escapes on the way; a delimited literal first finds its end, dropping the
backslash before a delimiter, and decodes what is left of the escapes afterwards.
-/

namespace SigilScript

/-- What an escaped character stands for between double quotes. -/
def doubleQuotedEscape (escaped : Char) : List Char :=
  match escaped with
  | 'n' => ['\n']
  | 't' => ['\t']
  | 'r' => ['\r']
  | '0' => ['\x00']
  | 'a' => ['\x07']
  | 'e' => ['\x1b']
  | '"' => ['"']
  | '\\' => ['\\']
  | other => ['\\', other]

/-- What an escaped character stands for where only the quote and the backslash are escaped. -/
def singleQuotedEscape (quote escaped : Char) : List Char :=
  if escaped = quote || escaped = '\\' then [escaped] else ['\\', escaped]

/-- The body of a literal, and how many characters it took together with its closer. -/
structure Body where
  text : List Char
  length : Nat
deriving DecidableEq, Repr, Inhabited

/-- The same body behind `count` further characters that stand for `text`. -/
def Body.push (text : List Char) (count : Nat) (body : Body) : Body :=
  ⟨text ++ body.text, body.length + count⟩

/-- The body of a plain quote: the double one interpolates. Nothing when its end is missing. -/
def quotedBody? (quote : Char) : List Char → Option Body
  | [] => none
  | '\\' :: [] => none
  | '\\' :: escaped :: rest =>
    let decoded := if quote = '"' then doubleQuotedEscape escaped
      else singleQuotedEscape quote escaped
    (quotedBody? quote rest).map (Body.push decoded 2)
  | c :: rest =>
    if c = quote then some ⟨[], 1⟩ else (quotedBody? quote rest).map (Body.push [c] 1)

/-- The body of a delimited literal whose delimiters nest when they differ. A backslash before a
delimiter is dropped unless `keepsEscapes`. Nothing when the end is missing. -/
def delimitedBody? (opener closer : Char) (keepsEscapes : Bool) : Nat → List Char → Option Body
  | _, [] => none
  | _, '\\' :: [] => none
  | depth, '\\' :: escaped :: rest =>
    let kept := if (escaped = opener || escaped = closer) && !keepsEscapes then [escaped]
      else ['\\', escaped]
    (delimitedBody? opener closer keepsEscapes depth rest).map (Body.push kept 2)
  | depth, c :: rest =>
    if c = closer then
      if depth = 0 then some ⟨[], 1⟩
      else (delimitedBody? opener closer keepsEscapes (depth - 1) rest).map (Body.push [c] 1)
    else if c = opener then
      (delimitedBody? opener closer keepsEscapes (depth + 1) rest).map (Body.push [c] 1)
    else (delimitedBody? opener closer keepsEscapes depth rest).map (Body.push [c] 1)

/-- The raw body of a string or word list that `opener` opens. -/
def textBody? (opener : Char) (text : List Char) : Option Body :=
  delimitedBody? opener (closingDelimiter opener) false 0 text

/-- The raw body of a pattern that `opener` opens: between paired delimiters an escaped one stays
escaped. -/
def patternBody? (opener : Char) (text : List Char) : Option Body :=
  delimitedBody? opener (closingDelimiter opener) (closingDelimiter opener != opener) 0 text

/-- Decode the escapes that a delimited body still holds. -/
def decodeEscapes (interpolated : Bool) : List Char → List Char
  | '\\' :: escaped :: rest =>
    (if interpolated then doubleQuotedEscape escaped else singleQuotedEscape '\\' escaped) ++
      decodeEscapes interpolated rest
  | c :: rest => c :: decodeEscapes interpolated rest
  | [] => []

end SigilScript
