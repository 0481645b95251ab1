import SigilScript.Node.Form
import SigilScript.Proofs.Modifier
import SigilScript.Proofs.Recovery
import SigilScript.Proofs.Scan.Escapes
import SigilScript.Proofs.Scan.Tokens

/-! # What literals stand for

Three ways to write a text as a literal, and one text that all of them come back to. A string that
is laid out between single quotes is read back as the same string. Between any delimiters behind a
quoting word a text is read back from each of its spellings. And behind a quoting word that has a
quote for its delimiter the same text is read as behind the quote alone.
-/

namespace SigilScript

variable {opener c : Char} {text spelling inner tail rest : List Char} {context : Context}

/-! ## Words between blanks -/

/-- The words of a text: its stretches without white space that white space, or an end of the text,
parts from what stands beside them. -/
inductive HasWords : List Char → List (List Char) → Prop where
  | nil : HasWords [] []
  | blank {c : Char} {text : List Char} {words : List (List Char)} (isBlank : isBlank c = true)
    (further : HasWords text words) : HasWords (c :: text) words
  | word {word text : List Char} {words : List (List Char)} (nonempty : word ≠ [])
    (solid : ∀ c ∈ word, isBlank c = false) (parted : ∀ c, text.head? = some c → isBlank c = true)
    (further : HasWords text words) : HasWords (word ++ text) (word :: words)

theorem words_blank (blank : isBlank c = true) (text : List Char) :
    words (c :: text) = words text := by
  rw [words, splitBlanks, if_pos blank]
  rfl

theorem splitBlanks_ne_nil (text : List Char) : splitBlanks text ≠ [] := by
  cases text with
  | nil => exact List.cons_ne_nil _ _
  | cons c text =>
    rw [splitBlanks]
    split
    · exact List.cons_ne_nil _ _
    · split <;> exact List.cons_ne_nil _ _

/-- A stretch without white space goes in front of the first piece behind it. -/
theorem splitBlanks_solid {word : List Char} (solid : ∀ c ∈ word, isBlank c = false)
    (text : List Char) : splitBlanks (word ++ text) =
      (word ++ (splitBlanks text).headD []) :: (splitBlanks text).tail := by
  induction word with
  | nil =>
    obtain ⟨piece, pieces, split⟩ := List.exists_cons_of_ne_nil (splitBlanks_ne_nil text)
    rw [List.nil_append, split]
    rfl
  | cons c word ih =>
    have first := solid c List.mem_cons_self
    have further := ih fun other member => solid other (List.mem_cons_of_mem _ member)
    rw [List.cons_append, splitBlanks, first, if_neg Bool.false_ne_true, further]
    rfl

theorem words_solid {word : List Char} (nonempty : word ≠ [])
    (solid : ∀ c ∈ word, isBlank c = false)
    (parted : ∀ c, text.head? = some c → isBlank c = true) :
    words (word ++ text) = word :: words text := by
  have begins : splitBlanks text = [] :: (splitBlanks text).tail := by
    cases text with
    | nil => rfl
    | cons c text => rw [splitBlanks, if_pos (parted c rfl), List.tail_cons]
  rw [words, words, splitBlanks_solid solid, begins, List.headD_cons, List.append_nil,
    List.tail_cons, List.filter_cons_of_pos (by simpa using nonempty),
    List.filter_cons_of_neg (by simp)]

/-- Every text has its words; the induction goes through it with the stretch in front that no white
space has ended yet. -/
theorem hasWords_solid {word : List Char} (solid : ∀ c ∈ word, isBlank c = false)
    (text : List Char) : HasWords (word ++ text) (words (word ++ text)) := by
  have ended {word : List Char} (solid : ∀ c ∈ word, isBlank c = false) {text : List Char}
      (parted : ∀ c, text.head? = some c → isBlank c = true)
      (further : HasWords text (words text)) :
      HasWords (word ++ text) (words (word ++ text)) := by
    by_cases empty : word = []
    · subst empty
      exact further
    · rw [words_solid empty solid parted]
      exact .word empty solid parted further
  induction text generalizing word with
  | nil => exact ended solid nofun .nil
  | cons c text ih =>
    cases blank : isBlank c with
    | true =>
      apply ended solid
      · intro d first
        exact Option.some.inj first ▸ blank
      · rw [words_blank blank]
        exact .blank blank (ih (List.forall_mem_nil _))
    | false =>
      have longer : ∀ d ∈ word ++ [c], isBlank d = false := by
        simpa [or_imp, forall_and] using ⟨solid, blank⟩
      have further := ih longer
      rwa [List.append_assoc, List.singleton_append] at further

/-- A text has its words and no others. -/
theorem hasWords_iff {others : List (List Char)} : HasWords text others ↔ others = words text := by
  constructor
  · intro has
    induction has with
    | nil => rfl
    | blank blank _ ih => rw [ih, words_blank blank]
    | word nonempty solid parted _ ih => rw [ih, words_solid nonempty solid parted]
  · rintro rfl
    have none : ∀ c ∈ ([] : List Char), isBlank c = false := List.forall_mem_nil _
    exact hasWords_solid none text

/-! ## How literals are read -/

theorem closingDelimiter_ne (plain : opener ≠ '\\') : closingDelimiter opener ≠ '\\' := by
  simp only [closingDelimiter]
  split
  · decide
  split
  · decide
  split
  · decide
  split
  · decide
  · exact plain

theorem solid_of_quote {quote : Char} (isQuote : quote ∈ ['"', '\'']) :
    isGapSpace quote = false ∧ quote ≠ '#' ∧ quote ≠ '=' := by
  simp only [List.mem_cons, List.not_mem_nil, or_false] at isQuote
  rcases isQuote with rfl | rfl <;> decide

/-- A quote whose body ends with the slice is read from it. -/
theorem ReadsAs.quoted (context : Context) {quote : Char} (isQuote : quote ∈ ['"', '\''])
    (found : quotedBody? quote (inner ++ tail) = some ⟨text, inner.length⟩) :
    ReadsAs context (quote :: inner) tail (.string (quote = '"')) (String.ofList text) := by
  obtain ⟨blank, comment, equals⟩ := solid_of_quote isQuote
  refine ⟨solid_of_starts blank ⟨comment, equals⟩ _, ?_⟩
  intro reader d rest unread same
  obtain ⟨rfl, -⟩ := List.cons.inj (same.symm.trans unread)
  have behind : (reader.skip 1).unread = inner ++ tail := by rw [Reader.skip, unread]; rfl
  refine ⟨(reader.skip 1).skip inner.length, ?_, ?_⟩
  · rw [Reader.scan_quote isQuote, Reader.quoted, behind, found]
    rfl
  · rw [Reader.skip, behind, List.drop_left]

/-- A quoting word is read with its literal from a slice that ends with the body. -/
theorem ReadsAs.quoting {word : String} {read : Reader → Reader → Char → Reading} {kind : TokenKind}
    (quoting : Reader.Quoting word read) (noArrow : context.previous ≠ some .arrow)
    (delimits : isQuoteDelimiter opener = true)
    (parts : opener = ':' → ∀ c more, inner ++ tail = ':' :: c :: more → isNameStart c = false)
    (reads : ∀ reader opened : Reader, opened.unread = inner ++ tail →
      read reader opened opener = (reader.token kind text, opened.skip inner.length)) :
    ReadsAs context (word.toList ++ opener :: inner) tail kind (String.ofList text) := by
  obtain ⟨c, more, spelled, starts⟩ := quoting.starts
  have letters : ∀ c ∈ ['q', 'm'], isNameStart c = true := List.all_eq_true.mp (by decide)
  refine ⟨?_, ?_⟩
  · rw [spelled]
    exact solid_of_isNameStart (letters c starts) tail
  · intro reader d rest unread same
    rw [List.append_assoc, List.cons_append] at unread
    obtain rfl : d = c := by
      rw [unread, spelled, List.cons_append] at same
      exact (List.cons.inj same).1.symm
    obtain ⟨opened, -, behind, scanned⟩ :=
      Reader.scan_quoting quoting spelled noArrow delimits parts unread
    refine ⟨opened.skip inner.length, ?_, ?_⟩
    · rw [scanned, reads reader opened behind]
      rfl
    · rw [Reader.skip, behind, List.drop_left]

/-- The slice of a literal behind a quoting word and its delimiter. -/
theorem textBody?_spelled (plain : opener ≠ '\\')
    (spelled : SpelledBetween opener (closingDelimiter opener) text spelling) (tail : List Char) :
    textBody? opener ((spelling ++ [closingDelimiter opener]) ++ tail) =
      some ⟨doubled text, (spelling ++ [closingDelimiter opener]).length⟩ := by
  rw [List.append_assoc, textBody?, List.singleton_append,
    delimitedBody?_spelled_closed spelled plain (closingDelimiter_ne plain), List.length_append]
  rfl

/-- Where a colon delimits a literal and is the last character, no name goes on behind it. -/
theorem parts_of_spelled (plain : opener ≠ '\\')
    (spelled : SpelledBetween opener (closingDelimiter opener) text spelling) (colon : opener = ':')
    (c : Char) (more : List Char)
    (same : (spelling ++ [closingDelimiter opener]) ++ [] = ':' :: c :: more) :
    isNameStart c = false := by
  subst colon
  have first := spelled.head?_ne plain
  cases spelling with
  | nil => simp at same
  | cons d spelling =>
    obtain ⟨rfl, -⟩ := List.cons.inj same
    exact absurd rfl first

/-- A text that is read as one token to its end is scanned as this token. -/
theorem ReadsAs.scan_alone {slice : List Char} {kind : TokenKind} {spelling : String}
    (reads : ReadsAs .start slice [] kind spelling) (noMark : slice.head? ≠ some '\ufeff') :
    scan slice = [.ok ⟨kind, spelling, .start⟩] := by
  have scanned := (ScansAs.cons_adjacent reads (.nil _ _)).scan
  rw [List.append_nil] at scanned
  exact scanned noMark

/-! ## Any delimiters -/

/-- Between any delimiters a text is read back from each of its spellings: as one string, and where
it holds no backslash also as one list of its words. -/
theorem scan_delimited (delimits : isQuoteDelimiter opener = true) (plain : opener ≠ '\\')
    (spelled : SpelledBetween opener (closingDelimiter opener) text spelling) :
    scan ('q' :: opener :: (spelling ++ [closingDelimiter opener])) =
        [.ok ⟨.string false, String.ofList text, .start⟩] ∧
      ('\\' ∉ text → ∃ words, (∀ others, HasWords text others ↔ others = words) ∧
        scan ('q' :: 'w' :: opener :: (spelling ++ [closingDelimiter opener])) =
          [.ok ⟨.quoteWords (words.map String.ofList), String.ofList text, .start⟩]) := by
  have body := textBody?_spelled plain spelled []
  have parts := parts_of_spelled plain spelled
  have noArrow : Context.start.previous ≠ some .arrow := by decide
  constructor
  · have reads : ReadsAs .start ("q".toList ++ opener :: (spelling ++ [closingDelimiter opener])) []
        (.string false) (String.ofList text) := by
      apply ReadsAs.quoting .string noArrow delimits parts
      intro reader opened behind
      rw [Reader.delimitedString, behind, body]
      simp only [Reader.literal, decodeEscapes_doubled]
    apply reads.scan_alone
    simp
  · intro noBackslash
    have reads : ReadsAs .start ("qw".toList ++ opener :: (spelling ++ [closingDelimiter opener])) []
        (.quoteWords ((words text).map String.ofList)) (String.ofList text) := by
      apply ReadsAs.quoting .words noArrow delimits parts
      intro reader opened behind
      rw [Reader.wordList, behind, body]
      simp only [Reader.literal, doubled_plain noBackslash]
    refine ⟨words text, fun others => hasWords_iff, ?_⟩
    apply reads.scan_alone
    simp

/-- Between angles a pair of them stands for itself, and a lone one is escaped, as a backslash is. -/
theorem scan_delimited_angles :
    scan "q<a\\\\<b>\\>>".toList = [.ok ⟨.string false, "a\\<b>>", .start⟩] ∧
      scan "qw<a <b>\n\\>>".toList =
        [.ok ⟨.quoteWords ["a", "<b>", ">"], "a <b>\n>", .start⟩] := by
  have angle : isQuoteDelimiter '<' = true := by decide
  have pair : SpelledBetween '<' '>' "<b>>".toList "<b>\\>".toList :=
    .pair (by decide) (.plain (by decide) (by decide) .nil) (.escaped (.inr rfl) .nil)
  have first : SpelledBetween '<' '>' "a\\<b>>".toList "a\\\\<b>\\>".toList :=
    .plain (by decide) (by decide) (.backslash pair)
  have second : SpelledBetween '<' '>' "a <b>\n>".toList "a <b>\n\\>".toList := by
    refine .plain (by decide) (by decide) (.plain (by decide) (by decide) ?_)
    refine .pair (by decide) (.plain (by decide) (by decide) .nil) ?_
    exact .plain (by decide) (by decide) (.escaped (.inr rfl) .nil)
  obtain ⟨words, unique, scanned⟩ := (scan_delimited angle (by decide) second).2 (by decide)
  obtain rfl : ["a".toList, "<b>".toList, ">".toList] = words :=
    (unique _).mp (hasWords_iff.mpr (by decide))
  exact ⟨(scan_delimited angle (by decide) first).1, scanned⟩

/-! ## Strings between single quotes -/

/-- Between single quotes a text is laid out in one of its spellings. -/
theorem singleQuoted_spelled (value : String) : ∃ spelling : List Char,
    (singleQuoted value).toList = '\'' :: (spelling ++ ['\'']) ∧
      SpelledBetween '\'' '\'' value.toList spelling := by
  refine ⟨value.toList.flatMap fun c => if c = '\'' || c = '\\' then ['\\', c] else [c], ?_, ?_⟩
  · simp [singleQuoted]
  · induction value.toList with
    | nil => exact .nil
    | cons c text ih =>
      rw [List.flatMap_cons]
      by_cases backslash : c = '\\'
      · subst backslash
        exact .backslash ih
      by_cases quote : c = '\''
      · subst quote
        exact .escaped (.inl rfl) ih
      · simp only [quote, backslash, decide_false, Bool.or_self, Bool.false_eq_true, ↓reduceIte]
        exact .plain backslash ⟨quote, quote⟩ ih

theorem quotedBody?_spelled (spelled : SpelledBetween '\'' '\'' text spelling) (tail : List Char) :
    quotedBody? '\'' ((spelling ++ ['\'']) ++ tail) =
      some ⟨text, (spelling ++ ['\'']).length⟩ := by
  have plain : '\'' ≠ '\\' := by decide
  rw [quotedBody?_eq plain, List.append_assoc, List.singleton_append,
    delimitedBody?_spelled_closed spelled plain plain, Option.map_some, Body.decoded,
    List.length_append]
  exact congrArg (fun text => some (Body.mk text _)) (decodeEscapes_doubled text)

/-- A string and a terminator are one statement, which is the string. -/
theorem parse_string (text : String) (position stop : Position) :
    (splitStatements [⟨⟨.string false, text, position⟩, .literal⟩,
      ⟨⟨.semicolon, ";", stop⟩, .terminator⟩]).filterMap parseStatement = [.plain text] := by
  let head : Lexeme := ⟨⟨.string false, text, position⟩, .literal⟩
  let terminator : Lexeme := ⟨⟨.semicolon, ";", stop⟩, .terminator⟩
  have simple : head.head = .simple := rfl
  have flat : Category.literal.delta = 0 ∧ Category.literal ≠ .terminator := by decide
  have ends : terminator.category = .terminator := rfl
  have level : Level 0 [] := trivial
  have whole := Grammar.parse_simple simple flat ends level rfl
  rw [Grammar.readModified_unmodified rfl] at whole
  exact whole

/-- A string that is laid out is read back. -/
theorem parse_text_plain (value : String) :
    parse ((Node.plain value).text ++ ";").toList = [.plain value] := by
  obtain ⟨spelling, laid, spelled⟩ := singleQuoted_spelled value
  have reads := ReadsAs.quoted .start (by decide) (quotedBody?_spelled spelled [';'])
  have scanned := (ScansAs.cons_adjacent reads (.semicolon _ _)).scan nofun
  have text : ((Node.plain value).text ++ ";").toList = '\'' :: (spelling ++ ['\'']) ++ [';'] := by
    rw [String.toList_append]
    exact congrArg (· ++ [';']) laid
  rw [String.ofList_toList] at scanned
  rw [text, parse_of_scan scanned]
  exact parse_string ..

/-! ## A quote, and a quoting word with the quote -/

/-- The first item of a text, and what is unread behind it. -/
def firstReading (text : List Char) : Option Scanned × List Char :=
  ((Scanner.start text).next.1, (Scanner.start text).next.2.reader.unread)

/-- A string at the start of a text, given its body and the text behind its opening delimiter:
without its end it is a fault, and the whole of that text is left. -/
def stringReading (interpolated : Bool) (rest : List Char) :
    Option Body → Option Scanned × List Char
  | some body =>
    (some (.ok ⟨.string interpolated, String.ofList body.text, .start⟩), rest.drop body.length)
  | none => (some (.error ⟨.unterminatedString, .start⟩), rest)

/-- What is read first begins where the text does, if that is no gap. -/
theorem firstReading_of_scan {reading : Option Scanned × List Char} (noMark : c ≠ '\ufeff')
    (solid : isGapSpace c = false ∧ c ≠ '#' ∧ c ≠ '=')
    (scanned : ∀ reader : Reader, reader.unread = c :: rest → reader.position = .start →
      ∃ item after, reader.scan .start c = some (item, after) ∧
        (some item, after.unread) = reading) :
    firstReading (c :: rest) = reading := by
  obtain ⟨blank, comment, equals⟩ := solid
  have begins : (Reader.start (c :: rest)).unread = c :: rest ∧
      (Reader.start (c :: rest)).position = .start := by
    rw [Reader.start, if_neg noMark]
    exact ⟨rfl, rfl⟩
  obtain ⟨unread, position⟩ := begins
  obtain ⟨behind, place⟩ := Reader.skipGap_solid blank comment equals (.nil _ _) unread
  obtain ⟨item, after, read, rfl⟩ := scanned _ behind (place.trans position)
  have running : (Scanner.start (c :: rest)).finished = false := rfl
  rw [firstReading, Scanner.next_of_scan running behind read]

/-- A string is read from its body and from what stands behind its opening delimiter. -/
theorem stringReading_literal {reader opened : Reader} {interpolated : Bool}
    (decode : List Char → List Char) (body : Option Body) (behind : opened.unread = rest)
    (position : reader.position = .start) :
    ∃ item after, reader.literal opened .unterminatedString body
        (fun text after => (reader.token (.string interpolated) (decode text), after)) =
          (item, after) ∧
      (some item, after.unread) = stringReading interpolated rest
        (body.map fun body => ⟨decode body.text, body.length⟩) := by
  subst behind
  cases body with
  | none =>
    refine ⟨_, _, rfl, ?_⟩
    rw [Reader.fault, position]
    rfl
  | some body =>
    refine ⟨_, _, rfl, ?_⟩
    rw [Reader.token, position]
    rfl

/-- A quote is read as a string whose escapes are decoded on the way to its end. -/
theorem firstReading_quote {quote : Char} (isQuote : quote ∈ ['"', '\'']) (rest : List Char) :
    firstReading (quote :: rest) =
      stringReading (quote = '"') rest (quotedBody? quote rest) := by
  have noMark : quote ≠ '\ufeff' := by
    rintro rfl
    exact absurd isQuote (by decide)
  apply firstReading_of_scan noMark (solid_of_quote isQuote)
  intro reader unread position
  have behind : (reader.skip 1).unread = rest := by rw [Reader.skip, unread]; rfl
  obtain ⟨item, after, read, left⟩ := stringReading_literal id (quotedBody? quote rest) behind position
  refine ⟨item, after, ?_, ?_⟩
  · rw [Reader.scan_quote isQuote, Reader.quoted, behind]
    exact congrArg some read
  · exact left.trans (congrArg (stringReading _ rest) Option.map_id')

/-- Behind a quoting word a string is read whose end is found first and whose escapes are decoded
afterwards. -/
theorem firstReading_quoting {word : String} {read : Reader → Reader → Char → Reading}
    {interpolated : Bool} (quoting : Reader.Quoting word read)
    (reads : ∀ reader opened, read reader opened opener =
      reader.delimitedString opened opener interpolated)
    (delimits : isQuoteDelimiter opener = true) (noColon : opener ≠ ':') (rest : List Char) :
    firstReading (word.toList ++ opener :: rest) = stringReading interpolated rest
      ((textBody? opener rest).map (Body.decoded interpolated)) := by
  obtain ⟨c, more, spelled, starts⟩ := quoting.starts
  have plain : ∀ c ∈ ['q', 'm'], c ≠ '\ufeff' ∧ isGapSpace c = false ∧ c ≠ '#' ∧ c ≠ '=' :=
    List.all_iff_forall_prop.mp (by decide)
  rw [spelled, List.cons_append]
  apply firstReading_of_scan (plain c starts).1 (plain c starts).2
  intro reader unread position
  rw [← List.cons_append, ← spelled] at unread
  have noArrow : Context.start.previous ≠ some .arrow := nofun
  obtain ⟨opened, -, behind, scanned⟩ := Reader.scan_quoting quoting spelled
    noArrow delimits (fun colon => absurd colon noColon) unread
  obtain ⟨item, after, read, left⟩ := stringReading_literal (decodeEscapes interpolated)
    (textBody? opener rest) behind position
  refine ⟨item, after, ?_, left⟩
  rw [scanned, reads, Reader.delimitedString, behind]
  exact congrArg some read

/-- A quote alone and a quoting word with the same quote read the same string from whatever stands
behind them, and leave the same text. -/
theorem firstReading_quotes (rest : List Char) :
    (∃ body, firstReading ('\'' :: rest) = stringReading false rest body ∧
      firstReading ('q' :: '\'' :: rest) = stringReading false rest body) ∧
    ∃ body, firstReading ('"' :: rest) = stringReading true rest body ∧
      firstReading ('q' :: 'q' :: '"' :: rest) = stringReading true rest body := by
  have agree {quote : Char} (isQuote : quote ∈ ['"', '\'']) :
      quotedBody? quote rest = (textBody? quote rest).map (Body.decoded (quote = '"')) := by
    have plain : quote ≠ '\\' := by
      rintro rfl
      exact absurd isQuote (by decide)
    rw [quotedBody?_eq plain, textBody?, Reader.closingDelimiter_quote isQuote]
  constructor
  · refine ⟨quotedBody? '\'' rest, firstReading_quote (by decide) rest, ?_⟩
    rw [agree (by decide)]
    exact firstReading_quoting .string (fun _ _ => rfl) (by decide) (by decide) rest
  · refine ⟨quotedBody? '"' rest, firstReading_quote (by decide) rest, ?_⟩
    rw [agree (by decide)]
    exact firstReading_quoting .interpolated (fun _ _ => rfl) (by decide) (by decide) rest

end SigilScript
