import SigilScript.Scan.Characters
import SigilScript.Scan.Reader

/-! # Numbers and names

Readers for the tokens that are their own spelling. Each returns the text it consumed and the
reader after it. An optional part is consumed whole or not at all, so a range after digits, a
failed exponent and a lone colon are left alone.
-/

namespace SigilScript

namespace Reader

/-- A fraction: a dot with a digit right after it, and a run of digits. -/
def fraction (reader : Reader) : List Char × Reader :=
  if reader.peek? 0 = some '.' then
    let looked := reader.look 2
    if (looked.peek? 1).any Char.isDigit then
      let (digits, after) := (looked.skip 1).run isDigitOrUnderscore
      ('.' :: digits, after)
    else ([], looked)
  else ([], reader)

/-- An exponent: its letter, a sign or none, and a run of digits that begins with one. -/
def exponent (reader : Reader) : List Char × Reader :=
  match reader.unread with
  | letter :: rest =>
    if letter = 'e' || letter = 'E' then
      let sign := (rest.take 1).filter fun c => c = '+' || c = '-'
      let looked := reader.look (sign.length + 2)
      if (looked.peek? (sign.length + 1)).any Char.isDigit then
        let (digits, after) := (looked.skip (sign.length + 1)).run isDigitOrUnderscore
        (letter :: sign ++ digits, after)
      else ([], looked)
    else ([], reader)
  | [] => ([], reader)

/-- Whether a text opens with a zero and the letter of a radix. -/
def opensRadix : List Char → Bool
  | '0' :: letter :: _ => letter ∈ ['x', 'X', 'b', 'B']
  | _ => false

/-- A number: with a radix, or digits, a fraction and an exponent. -/
def number (reader : Reader) : List Char × Reader :=
  let looked := if reader.peek? 0 = some '0' then reader.look 2 else reader
  if opensRadix reader.unread then
    let (digits, after) := (looked.skip 2).run isRadixDigit
    (reader.unread.take 2 ++ digits, after)
  else
    let (whole, afterWhole) := looked.run isDigitOrUnderscore
    let (fraction, afterFraction) := afterWhole.fraction
    let (exponent, after) := afterFraction.exponent
    (whole ++ fraction ++ exponent, after)

/-- Looking for the letter of a radix leaves the text as it is. -/
theorem unread_lookRadix (reader : Reader) :
    (if reader.peek? 0 = some '0' then reader.look 2 else reader).unread = reader.unread := by
  split <;> rfl

end Reader

/-- The longest name at the front of a text, with the `::` that join its parts. -/
def nameText : List Char → List Char
  | ':' :: ':' :: c :: rest => if isNameStart c then ':' :: ':' :: c :: nameText rest else []
  | c :: rest => if isNameChar c then c :: nameText rest else []
  | [] => []

/-- How far a reader looks to see that a name is over: past each colon that might join it. -/
def nameLook : List Char → Nat
  | ':' :: ':' :: _ => 3
  | ':' :: _ => 2
  | _ => 1

/-- A name. -/
def Reader.name (reader : Reader) : List Char × Reader :=
  let text := nameText reader.unread
  let after := reader.skip text.length
  (text, after.look (nameLook after.unread))

/-- Whether a word opens a version: a `v` and digits only. -/
def opensVersion : List Char → Bool
  | 'v' :: digits => !digits.isEmpty && digits.all Char.isDigit
  | _ => false

/-- The further parts of a version: each a dot, a digit and a run of digits. -/
def versionText : Bool → List Char → List Char
  | _, '.' :: c :: rest => if c.isDigit then '.' :: c :: versionText true rest else []
  | inRun, c :: rest =>
    if inRun && isDigitOrUnderscore c then c :: versionText inRun rest else []
  | _, [] => []

/-- How far a reader looks to see that a version is over. -/
def versionLook : List Char → Nat
  | '.' :: _ => 2
  | _ => 1

/-- The further parts of a version. -/
def Reader.versionParts (reader : Reader) : List Char × Reader :=
  let text := versionText false reader.unread
  let after := reader.skip text.length
  (text, after.look (versionLook after.unread))

end SigilScript
