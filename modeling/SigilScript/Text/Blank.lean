/-! # White space

The Unicode property White_Space, which separates the words of a word list and may not delimit a
literal. The gaps between tokens are made of fewer characters.
-/

namespace SigilScript

/-- The ranges of White_Space, ascending. -/
def blankRanges : List (Nat × Nat) :=
  [(0x9, 0xd), (0x20, 0x20), (0x85, 0x85), (0xa0, 0xa0), (0x1680, 0x1680), (0x2000, 0x200a),
   (0x2028, 0x2029), (0x202f, 0x202f), (0x205f, 0x205f), (0x3000, 0x3000)]

/-- Whether a character has the property White_Space. -/
def isBlank (c : Char) : Bool :=
  blankRanges.any fun range => range.1 ≤ c.toNat && c.toNat ≤ range.2

theorem isBlank_of_isWhitespace {c : Char} (space : c.isWhitespace = true) : isBlank c = true := by
  simp only [Char.isWhitespace, Bool.or_eq_true, decide_eq_true_eq] at space
  rcases space with ((rfl | rfl) | rfl) | rfl <;> decide

/-- The pieces of a text between white space; next to each other, two blanks leave an empty
piece. -/
def splitBlanks : List Char → List (List Char)
  | [] => [[]]
  | c :: rest =>
    if isBlank c then [] :: splitBlanks rest
    else
      match splitBlanks rest with
      | [] => [[c]]
      | piece :: pieces => (c :: piece) :: pieces

/-- The words of a text: its longest stretches without white space. -/
def words (text : List Char) : List (List Char) :=
  (splitBlanks text).filter fun piece => !piece.isEmpty

end SigilScript
