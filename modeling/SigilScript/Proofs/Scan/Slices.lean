import SigilScript.Proofs.Scan.Cases
import SigilScript.Proofs.Scan.Crossing

/-! # What items are read from

An item is read from a slice of the text. The slice of a token is its text, unless the token is a
literal, whose text is what the literal holds. The slice of a fault begins with the character that
is at fault, or as the literal does that has no end.
-/

namespace SigilScript

/-- Whether the text of a token of this kind is its spelling. -/
def TokenKind.isSpelling : TokenKind → Bool
  | .string _ | .quoteWords _ | .regex _ => false
  | _ => true

/-- The characters that literals of a kind may begin with: a quote, a slash, or the first letter of a
quoting word. -/
def TokenKind.openers : TokenKind → List Char
  | .string true => ['"', 'q']
  | .string false => ['\'', 'q']
  | .quoteWords _ => ['q']
  | .regex _ => ['/', 'm', 'q']
  | _ => []

/-- The characters that the text of a fault may begin with. -/
def ScanCause.openers : ScanCause → List Char
  | .unterminatedString => ['"', '\'', 'q']
  | .unterminatedQuoteWords => ['q']
  | .unterminatedRegex => ['/', 'm', 'q']
  | .unexpectedCharacter c => [c]

/-- What an item may be read from. -/
inductive ReadFrom : Scanned → List Char → Prop where
  | spelling {token : Token} (plain : token.kind.isSpelling = true)
    (goesOn : token.kind = .identifier → isEndWord token.text = false) :
    ReadFrom (.ok token) token.text.toList
  | literal {token : Token} {c : Char} {slice : List Char} (opens : c ∈ token.kind.openers) :
    ReadFrom (.ok token) (c :: slice)
  | fault {fault : ScanFault} {c : Char} {slice : List Char} (begins : c ∈ fault.cause.openers) :
    ReadFrom (.error fault) (c :: slice)

namespace Reader

/-- What is read here is read from a slice of the text that begins here. -/
def Slices (reader : Reader) (reading : Reading) : Prop :=
  ∃ slice, reader.Crosses slice reading.2 ∧ ReadFrom reading.1 slice

variable {reader between after : Reader} {reading : Reading}

theorem Slices.of_look {count : Nat} (slices : (reader.look count).Slices reading) :
    reader.Slices reading := by
  obtain ⟨slice, crosses, isRead⟩ := slices
  exact ⟨slice, (crosses_look count reader).trans crosses, isRead⟩

/-- A token that is its own spelling, and no name, is read from its text. -/
theorem slices_token {kind : TokenKind} {text : List Char} (crosses : reader.Crosses text after)
    (plain : kind.isSpelling = true) (noName : kind ≠ .identifier) :
    reader.Slices (reader.token kind text, after) := by
  have spelled : (String.ofList text).toList = text := String.toList_ofList
  refine ⟨text, crosses, ?_⟩
  have isRead : ReadFrom (reader.token kind text) (String.ofList text).toList :=
    .spelling plain fun name => absurd name noName
  rwa [spelled] at isRead

theorem slices_number (reader : Reader) : reader.Slices reader.numberToken :=
  slices_token (crosses_number reader) rfl (by decide)

theorem slices_operator {c : Char} {rest : List Char} (next : reader.unread = c :: rest) :
    reader.Slices reader.operator := by
  simp only [operator]
  split
  · next spelling found =>
    have fits : spelling.toList.isPrefixOf (reader.look 3).unread = true := by
      simpa using List.find?_some found
    obtain ⟨more, same⟩ := List.isPrefixOf_iff_prefix.mp fits
    have skipped := crosses_skip same.symm
    rw [String.length_toList] at skipped
    refine ⟨spelling.toList, (crosses_look 3 reader).trans skipped, .spelling ?_ ?_⟩
    · simp only [TokenKind.ofOperator]
      split <;> rfl
    · simp only [TokenKind.ofOperator]
      split <;> exact fun name => absurd name (by decide)
  · have skipped := crosses_take 1 (reader.look 3)
    have one : (reader.look 3).unread.take 1 = [c] := by simp [look, next]
    rw [one] at skipped
    refine ⟨[c], (crosses_look 3 reader).trans skipped, .fault ?_⟩
    simp [ScanCause.openers, look, next]

/-! ## Literals -/

/-- A literal is read from its opening delimiter on; without its end that is all that is read. -/
theorem slices_literal {opened : Reader} {cause : ScanCause} {body : Option Body}
    {scanned : List Char → Reader → Reading} {c : Char} {opening : List Char}
    (crosses : reader.Crosses (c :: opening) opened) (begins : c ∈ cause.openers)
    (reads : ∀ (text : List Char) (closed : Reader), ∃ (token : Token) (flags : List Char),
      (scanned text closed).1 = .ok token ∧ c ∈ token.kind.openers ∧
        closed.Crosses flags (scanned text closed).2) :
    reader.Slices (reader.literal opened cause body scanned) := by
  cases body with
  | none => exact ⟨c :: opening, crosses.exhaust, .fault begins⟩
  | some body =>
    obtain ⟨token, flags, isToken, opens, flagged⟩ := reads body.text (opened.skip body.length)
    refine ⟨c :: opening ++ (_ ++ flags),
      crosses.trans ((crosses_take body.length opened).trans flagged), ?_⟩
    simp only [literal, isToken]
    exact .literal opens

theorem slices_quoted {c : Char} {rest : List Char} (next : reader.unread = c :: rest)
    (quote : c = '"' ∨ c = '\'') : reader.Slices (reader.quoted c) := by
  have opened : reader.Crosses [c] (reader.skip 1) := crosses_skip next
  obtain rfl | rfl := quote
  · refine slices_literal opened (by decide) fun text closed => ?_
    exact ⟨_, [], rfl, List.mem_cons_self, Crosses.refl closed⟩
  · refine slices_literal opened (by decide) fun text closed => ?_
    exact ⟨_, [], rfl, List.mem_cons_self, Crosses.refl closed⟩

theorem slices_delimitedString {opened : Reader} {opener : Char} {opening : List Char}
    (crosses : reader.Crosses ('q' :: opening) opened) (interpolated : Bool) :
    reader.Slices (reader.delimitedString opened opener interpolated) := by
  refine slices_literal crosses (by decide) fun text closed => ?_
  refine ⟨_, [], rfl, ?_, Crosses.refl closed⟩
  cases interpolated <;> exact List.mem_cons_of_mem _ List.mem_cons_self

theorem slices_wordList {opened : Reader} {opener : Char} {opening : List Char}
    (crosses : reader.Crosses ('q' :: opening) opened) :
    reader.Slices (reader.wordList opened opener) := by
  refine slices_literal crosses (by decide) fun text closed => ?_
  exact ⟨_, [], rfl, List.mem_cons_self, Crosses.refl closed⟩

theorem slices_pattern {opened : Reader} {opener c : Char} {opening : List Char}
    (crosses : reader.Crosses (c :: opening) opened) (opens : c ∈ ['/', 'm', 'q']) :
    reader.Slices (reader.pattern opened opener) := by
  refine slices_literal crosses opens fun text closed => ?_
  exact ⟨_, _, rfl, opens, crosses_run Char.isAlpha closed⟩

/-! ## Words -/

theorem slices_plainWord {text : List Char} (crosses : reader.Crosses text after)
    (goesOn : isEndWord (String.ofList text) = false) :
    reader.Slices (word.plainWord reader after text) := by
  simp only [word.plainWord]
  split
  · exact slices_token (crosses.trans (crosses_versionParts after)) rfl (by decide)
  · have spelled : (String.ofList text).toList = text := String.toList_ofList
    refine ⟨text, crosses, ?_⟩
    have isRead : ReadFrom (reader.token .identifier text) (String.ofList text).toList :=
      .spelling rfl fun _ => goesOn
    rwa [spelled] at isRead

theorem slices_word {previous : Option Category} (read : reader.word previous = some reading) :
    reader.Slices reading := by
  have crosses := crosses_name reader
  have opened {opener : Char} {behind : List Char} (next : reader.name.2.unread = opener :: behind) :
      reader.Crosses (reader.name.1 ++ [opener]) (reader.name.2.skip 1) := by
    have delimiter : reader.name.2.Crosses [opener] (reader.name.2.skip 1) := crosses_skip next
    exact crosses.trans delimiter
  cases word_cases read with
  | string interpolated quotes next =>
    have begun := opened next
    rw [quotes] at begun
    exact slices_delimitedString begun interpolated
  | words quotes next =>
    have begun := opened next
    rw [quotes] at begun
    exact slices_wordList begun
  | pattern quotes letter next =>
    have begun := opened next
    rw [quotes] at begun
    exact slices_pattern begun (by simp [letter])
  | plain goesOn => exact slices_plainWord crosses goesOn

/-! ## Sigils -/

theorem slices_sigil {sigil : Sigil} {rest : List Char} (next : reader.unread = sigil.char :: rest)
    (found : SigilCase reader sigil reading) : reader.Slices reading := by
  have looked := crosses_look 3 reader
  have skipped {text behind : List Char} (comes : reader.unread = text ++ behind) :
      reader.Crosses text ((reader.look 3).skip text.length) := by
    have skipped : (reader.look 3).Crosses text ((reader.look 3).skip text.length) :=
      crosses_skip comes
    exact looked.trans skipped
  cases found with
  | named comes => exact slices_token ((skipped comes).trans (crosses_name _)) rfl nofun
  | digits comes => exact slices_token ((skipped comes).trans (crosses_run _ _)) rfl nofun
  | spelled comes isSigil =>
    obtain rfl | rfl := isSigil
    · exact slices_token (skipped comes) rfl nofun
    · exact slices_token (skipped comes) rfl nofun
  | operator =>
    have unread : (reader.look 3).unread = sigil.char :: rest := next
    exact (slices_operator unread).of_look
  | fault count =>
    have skipped := crosses_take (count + 1) (reader.look 3)
    have unread : (reader.look 3).unread = sigil.char :: rest := next
    rw [unread, List.take_succ_cons] at skipped
    exact ⟨_, looked.trans skipped, .fault List.mem_cons_self⟩

/-! ## Items -/

/-- Every item is read from a slice of the text that begins where the reader stands. -/
theorem slices_scan {context : Context} {c : Char} {rest : List Char}
    (next : reader.unread = c :: rest) (read : reader.scan context c = some reading) :
    reader.Slices reading := by
  cases scan_cases read with
  | number => exact slices_number reader
  | fraction => exact (slices_number (reader.look 2)).of_look
  | quoted quote => exact slices_quoted next quote
  | word _ read => exact slices_word read
  | sigil sigil spelled =>
    rw [spelled] at next
    exact slices_sigil next (sigil_cases next)
  | pattern slash =>
    rw [slash] at next
    have opened : reader.Crosses ['/'] (reader.skip 1) := crosses_skip next
    exact slices_pattern opened (by decide)
  | operator => exact slices_operator next
  | dot =>
    have unread : (reader.look 2).unread = c :: rest := next
    exact (slices_operator unread).of_look

end Reader

end SigilScript
