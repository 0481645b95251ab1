import SigilScript.Scan.Characters
import SigilScript.Scan.Reader

/-! # Gaps between tokens

Tokens are separated by spaces, by comments that run to the end of their line, and by
documentation: a line that opens with `=` and a letter begins it, and it goes on through a line
that opens with `=cut`, or to the end of the text.
-/

namespace SigilScript

/-- What kind of gap is being skipped. -/
inductive Gap where
  /-- Spaces. -/
  | spaces
  /-- A comment, up to its newline. -/
  | comment
  /-- Documentation; `closing` says that the current line is its last. -/
  | documentation (closing : Bool)
deriving DecidableEq, Repr, Inhabited

/-- Whether a line of documentation is its last. -/
def closesDocumentation (line : List Char) : Bool := "=cut".toList.isPrefixOf line

/-- Whether documentation begins here, given that a line does. -/
def opensDocumentation : List Char → Bool
  | '=' :: c :: _ => c.isAlpha
  | _ => false

/-- How many characters of a text separate tokens; `atLineStart` says that a line begins here. -/
def Gap.length : Gap → Bool → List Char → Nat
  | _, _, [] => 0
  | .spaces, atLineStart, c :: rest =>
    if isGapSpace c then Gap.length .spaces (c = '\n') rest + 1
    else if c = '#' then Gap.length .comment false rest + 1
    else if atLineStart && opensDocumentation (c :: rest) then
      Gap.length (.documentation (closesDocumentation (c :: rest))) false rest + 1
    else 0
  | .comment, _, c :: rest =>
    if c = '\n' then Gap.length .spaces true rest + 1 else Gap.length .comment false rest + 1
  | .documentation closing, _, c :: rest =>
    if c = '\n' then
      if closing then Gap.length .spaces true rest + 1
      else Gap.length (.documentation (closesDocumentation rest)) false rest + 1
    else Gap.length (.documentation closing) false rest + 1

/-- Skip the gap before the next token and look at what ends it: one character, and a second
where an equals sign opens a line. -/
def Reader.skipGap (reader : Reader) : Reader :=
  let skipped :=
    reader.skip (Gap.length .spaces (reader.position.column = 1) reader.unread)
  if skipped.position.column = 1 && skipped.peek? 0 = some '=' then skipped.look 2
  else skipped.look 1

end SigilScript
