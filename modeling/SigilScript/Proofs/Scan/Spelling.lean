import SigilScript.Proofs.Scan.Run

/-! # How variables and names are spelled

A variable is spelled with its sigil first, and a name begins with no sigil. So a variable can be
told from a name by its text alone, where a tree keeps nothing but the text.
-/

namespace SigilScript

/-- A variable is spelled with its sigil first, and a name begins with none. -/
def Token.Spelled (token : Token) : Prop :=
  match token.kind with
  | .var sigil => token.text.toList.head? = some sigil.char
  | .identifier => ∀ sigil : Sigil, token.text.toList.head? ≠ some sigil.char
  | _ => True

/-- Where an item is a token, it is spelled as its kind asks for. -/
def SpelledItem : Scanned → Prop
  | .ok token => token.Spelled
  | .error _ => True

namespace Reader

variable {reader after : Reader}

/-! ## What a reader spells -/

theorem isNameStart_char (sigil : Sigil) : isNameStart sigil.char = false := by
  cases sigil <;> decide

theorem spelled_operator (reader : Reader) : SpelledItem reader.operator.1 := by
  simp only [operator]
  split
  · simp only [TokenKind.ofOperator]
    split <;> trivial
  · trivial

theorem spelled_literal {opened : Reader} {cause : ScanCause} {body : Option Body}
    {scanned : List Char → Reader → Reading}
    (spelled : ∀ text after, SpelledItem (scanned text after).1) :
    SpelledItem (reader.literal opened cause body scanned).1 := by
  cases body with
  | none => trivial
  | some body => exact spelled _ _

theorem spelled_var {sigil : Sigil} (name : List Char) :
    SpelledItem (reader.token (.var sigil) (sigil.char :: name)) := by
  simp [SpelledItem, token, Token.Spelled]

theorem spelled_plainWord {c : Char} {text : List Char} (begins : text.head? = some c)
    (starts : isNameStart c = true) : SpelledItem (word.plainWord reader after text).1 := by
  simp only [word.plainWord]
  split
  · trivial
  · intro sigil same
    rw [String.toList_ofList, begins] at same
    obtain rfl := Option.some.inj same
    rw [isNameStart_char] at starts
    contradiction

theorem head?_name {c : Char} {rest : List Char} (unread : reader.unread = c :: rest)
    (starts : isNameStart c = true) : reader.name.1.head? = some c := by
  simp only [name, unread]
  rw [nameText_char _ (isNameStart_isNameChar starts), List.head?_cons]

theorem spelled_word {previous : Option Category} {reading : Reading} {c : Char} {rest : List Char}
    (unread : reader.unread = c :: rest) (starts : isNameStart c = true)
    (read : reader.word previous = some reading) : SpelledItem reading.1 := by
  cases word_cases read with
  | string => exact spelled_literal fun _ _ => trivial
  | words => exact spelled_literal fun _ _ => trivial
  | pattern => exact spelled_literal fun _ _ => trivial
  | plain => exact spelled_plainWord (head?_name unread starts) starts

theorem spelled_sigil {sigil : Sigil} {reading : Reading}
    (found : SigilCase reader sigil reading) : SpelledItem reading.1 := by
  cases found with
  | named | digits => exact spelled_var _
  | spelled _ isSigil =>
    obtain rfl | rfl := isSigil
    · exact spelled_var _
    · trivial
  | operator => exact spelled_operator _
  | fault => trivial

theorem spelled_scan {context : Context} {c : Char} {rest : List Char} {reading : Reading}
    (unread : reader.unread = c :: rest) (read : reader.scan context c = some reading) :
    SpelledItem reading.1 := by
  cases scan_cases read with
  | number | fraction => trivial
  | quoted => exact spelled_literal fun _ _ => trivial
  | word starts read => exact spelled_word unread starts read
  | sigil sigil spelled =>
    rw [spelled] at unread
    exact spelled_sigil (sigil_cases unread)
  | pattern => exact spelled_literal fun _ _ => trivial
  | operator | dot => exact spelled_operator _

end Reader

/-! ## What a scan spells -/

theorem Scanner.spelled_trace (calls : Nat) (scanner : Scanner) :
    ∀ item ∈ (scanner.trace calls).filterMap Prod.fst, SpelledItem item := by
  induction calls generalizing scanner with
  | zero => exact fun _ member => absurd member List.not_mem_nil
  | succ calls ih =>
    simp only [trace]
    rcases read : scanner.next with ⟨_ | item, after⟩
    · exact fun _ member => absurd member List.not_mem_nil
    · obtain ⟨-, c, rest, reader, unread, scanned, rfl⟩ := scan_of_next read
      rintro other (_ | ⟨_, member⟩)
      · exact Reader.spelled_scan unread scanned
      · exact ih _ other member

/-- Every token of a text is spelled as its kind asks for. -/
theorem spelled_of_scan {text : List Char} {tokens : List Token}
    (scanned : scan text = tokens.map .ok) : ∀ token ∈ tokens, token.Spelled := by
  intro token member
  have items := Scanner.spelled_trace (text.length + 1) (.start text)
  have found : .ok token ∈ scan text := by
    rw [scanned]
    exact List.mem_map_of_mem member
  exact items _ found

end SigilScript
