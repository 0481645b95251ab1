import SigilScript.Token

/-! # Reading a stream of characters

A reader stands at a place of a text whose characters are pulled one at a time. What has been
pulled can be looked at without being consumed, so a reader knows how far it has looked: looking
never changes what is read, only how much of the stream it has cost. A text that was pulled to its
end is told apart from one that may go on.
-/

namespace SigilScript

/-- What is left to read, where it stands, and what reading has cost. -/
structure Reader where
  /-- The characters not consumed yet. -/
  unread : List Char
  /-- The place of the first of them. -/
  position : Position
  /-- How many characters were consumed. -/
  consumed : Nat
  /-- How many of the unread characters were pulled already. -/
  ahead : Nat
  /-- Whether the end of the text was seen. -/
  ended : Bool
deriving DecidableEq, Repr, Inhabited

namespace Reader

/-- How many characters were pulled. -/
def pulled (reader : Reader) : Nat := reader.consumed + reader.ahead

/-- Look at the next `count` characters. -/
def look (count : Nat) (reader : Reader) : Reader :=
  let seen := (reader.unread.take count).length
  { reader with ahead := max reader.ahead seen, ended := reader.ended || seen < count }

/-- Consume the next `count` characters. -/
def skip (count : Nat) (reader : Reader) : Reader :=
  let taken := reader.unread.take count
  { reader with
    unread := reader.unread.drop count
    position := reader.position.after taken
    consumed := reader.consumed + taken.length
    ahead := reader.ahead - taken.length }

/-- Pull the text to its end without consuming any of it. -/
def exhaust (reader : Reader) : Reader :=
  { reader with ahead := reader.unread.length, ended := true }

/-- Consume the longest run of characters that a test accepts, and look at what ends it. -/
def run (accepts : Char → Bool) (reader : Reader) : List Char × Reader :=
  let text := reader.unread.takeWhile accepts
  (text, (reader.skip text.length).look 1)

/-- The unread character at an offset. -/
def peek? (offset : Nat) (reader : Reader) : Option Char := reader.unread[offset]?

/-- Start reading a text: a byte order mark is dropped and moves no column. -/
def start (text : List Char) : Reader :=
  match text with
  | [] => ⟨[], .start, 0, 0, true⟩
  | c :: rest =>
    if c = '\ufeff' then ⟨rest, .start, 1, 0, false⟩ else ⟨c :: rest, .start, 0, 1, false⟩

end Reader

end SigilScript
