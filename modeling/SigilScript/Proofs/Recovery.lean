import Mathlib.Data.Bool.AllAny
import SigilScript.Proofs.Scan.Calls
import SigilScript.Proofs.Scan.Exchange

/-! # Literals without their end

A literal whose closer does not come is a fault at its first character, and scanning resumes right
behind its opening delimiter as if the literal had only been looked at. That is what a reader is
left with that reads the literal character by character, records each, and pushes all of them back
when the text ends before the closer.
-/

namespace SigilScript

variable {opener closer : Char} {depth : Nat} {text rest : List Char}

/-! ## Whether a literal ends -/

/-- Whether a text leads to the closer of a literal, with so many openers of its kind open within
it. A backslash takes the character behind it along. -/
inductive ClosesLiteral (opener closer : Char) : Nat → List Char → Prop where
  | closer {rest : List Char} (plain : closer ≠ '\\') :
    ClosesLiteral opener closer 0 (closer :: rest)
  | inner {depth : Nat} {rest : List Char} (plain : closer ≠ '\\')
    (further : ClosesLiteral opener closer depth rest) :
    ClosesLiteral opener closer (depth + 1) (closer :: rest)
  | opener {depth : Nat} {rest : List Char} (plain : opener ≠ '\\') (paired : opener ≠ closer)
    (further : ClosesLiteral opener closer (depth + 1) rest) :
    ClosesLiteral opener closer depth (opener :: rest)
  | escaped {depth : Nat} {c : Char} {rest : List Char}
    (further : ClosesLiteral opener closer depth rest) :
    ClosesLiteral opener closer depth ('\\' :: c :: rest)
  | other {depth : Nat} {c : Char} {rest : List Char} (plain : c ≠ '\\') (noCloser : c ≠ closer)
    (noOpener : c ≠ opener) (further : ClosesLiteral opener closer depth rest) :
    ClosesLiteral opener closer depth (c :: rest)

/-- A literal has a body where its closer comes, whatever becomes of its escapes. -/
theorem isSome_delimitedBody? (keepsEscapes : Bool) :
    (delimitedBody? opener closer keepsEscapes depth text).isSome = true ↔
      ClosesLiteral opener closer depth text := by
  constructor
  · intro found
    fun_induction delimitedBody? opener closer keepsEscapes depth text with
    | case1 | case2 => contradiction
    | case3 depth escaped rest kept =>
      rename_i ih
      exact .escaped (ih (Option.isSome_map ▸ found))
    | case4 rest single escape => exact .closer (plain_of_alone single escape)
    | case5 depth rest inside single escape ih =>
      obtain ⟨depth, rfl⟩ := Nat.exists_eq_succ_of_ne_zero inside
      exact .inner (plain_of_alone single escape) (ih (Option.isSome_map ▸ found))
    | case6 depth rest single escape paired ih =>
      exact .opener (plain_of_alone single escape) paired (ih (Option.isSome_map ▸ found))
    | case7 depth c rest single escape noCloser noOpener ih =>
      exact .other (plain_of_alone single escape) noCloser noOpener (ih (Option.isSome_map ▸ found))
  · intro closes
    induction closes with
    | closer plain => rw [delimitedBody?_plain _ _ _ _ plain, if_pos rfl, if_pos rfl]; rfl
    | inner plain _ ih =>
      rw [delimitedBody?_plain _ _ _ _ plain, if_pos rfl, if_neg (Nat.succ_ne_zero _),
        Option.isSome_map]
      exact ih
    | opener plain paired _ ih =>
      rw [delimitedBody?_plain _ _ _ _ plain, if_neg paired, if_pos rfl, Option.isSome_map]
      exact ih
    | escaped _ ih =>
      rw [delimitedBody?, Option.isSome_map]
      exact ih
    | other plain noCloser noOpener _ ih =>
      rw [delimitedBody?_plain _ _ _ _ plain, if_neg noCloser, if_neg noOpener, Option.isSome_map]
      exact ih

instance ClosesLiteral.decidable (opener closer : Char) (depth : Nat) (text : List Char) :
    Decidable (ClosesLiteral opener closer depth text) :=
  decidable_of_iff _ (isSome_delimitedBody? false)

/-- A quote is its own closer. -/
theorem isSome_quotedBody? {quote : Char} :
    (quotedBody? quote text).isSome = (delimitedBody? quote quote false 0 text).isSome := by
  fun_induction quotedBody? quote text with
  | case1 => rfl
  | case2 => rw [delimitedBody?]
  | case3 escaped rest decoded =>
    rename_i ih
    rw [delimitedBody?, Option.isSome_map, Option.isSome_map, ih]
  | case4 rest single escape =>
    rw [delimitedBody?_plain _ _ _ _ (plain_of_alone single escape), if_pos rfl, if_pos rfl]
  | case5 c rest single escape other ih =>
    rw [delimitedBody?_plain _ _ _ _ (plain_of_alone single escape), if_neg other, if_neg other,
      Option.isSome_map, Option.isSome_map, ih]

/-! ## Reading and pushing back -/

/-- A reader of a literal with what it has read so far, to push it back. -/
structure Search where
  reader : Reader
  recorded : List Char

namespace Search

/-- Consume the next character and record it. Where there is none the end of the text is seen. -/
def advance (search : Search) : Option Char × Search :=
  match search.reader.unread with
  | [] => (none, { search with reader := search.reader.look 1 })
  | c :: _ => (some c, ⟨search.reader.skip 1, search.recorded ++ [c]⟩)

/-- What a search has read from a place on it has recorded. -/
def Records (opened : Reader) (search : Search) : Prop :=
  opened.Crosses search.recorded search.reader

variable {opened : Reader} {search after : Search}

theorem unread_of_advance {c : Char} (advanced : search.advance = (some c, after)) :
    search.reader.unread = c :: after.reader.unread := by
  unfold advance at advanced
  split at advanced
  · simp at advanced
  · next unread =>
    obtain ⟨same, rfl⟩ := Prod.mk.inj advanced
    obtain rfl := Option.some.inj same
    simp only [Reader.skip, unread, List.drop_succ_cons, List.drop_zero]

theorem Records.advance {c : Char} (records : Records opened search)
    (advanced : search.advance = (some c, after)) : Records opened after := by
  unfold Search.advance at advanced
  split at advanced
  · simp at advanced
  · next d rest unread =>
    obtain ⟨-, rfl⟩ := Prod.mk.inj advanced
    have skipped : search.reader.Crosses [d] (search.reader.skip 1) := Reader.crosses_skip unread
    exact records.trans skipped

theorem Records.ended (records : Records opened search)
    (advanced : search.advance = (none, after)) :
    Records opened after ∧ search.reader.unread = [] ∧ after.reader.unread = [] ∧
      after.reader.ended = true := by
  unfold Search.advance at advanced
  split at advanced
  · next unread =>
    obtain ⟨-, rfl⟩ := Prod.mk.inj advanced
    exact ⟨records.look 1, unread, unread, by simp [Reader.look, unread]⟩
  · simp at advanced

theorem length_advance {c : Char} (advanced : search.advance = (some c, after)) :
    after.reader.unread.length < search.reader.unread.length := by
  rw [unread_of_advance advanced]
  exact Nat.lt_succ_self _

/-- Read up to the closer, with so many openers open, and say whether it came. -/
def seek (opener closer : Char) (depth : Nat) (search : Search) : Bool × Search :=
  match advanced : search.advance with
  | (none, ended) => (false, ended)
  | (some c, after) =>
    have shorter := length_advance advanced
    if c = '\\' then
      match escaped : after.advance with
      | (none, ended) => (false, ended)
      | (some _, after) =>
        have _shorter' := length_advance escaped
        seek opener closer depth after
    else if c = closer then
      if depth = 0 then (true, after) else seek opener closer (depth - 1) after
    else if c = opener then seek opener closer (depth + 1) after
    else seek opener closer depth after
termination_by search.reader.unread.length

/-- A search that reads on from a place records all of it, finds the closer where it comes, and else
reads to the end. -/
structure Sought (opener closer : Char) (depth : Nat) (opened : Reader) (text : List Char)
    (found : Bool × Search) : Prop where
  records : Records opened found.2
  closes : found.1 = (delimitedBody? opener closer false depth text).isSome
  exhausts : found.1 = false → found.2.reader.unread = [] ∧ found.2.reader.ended = true

/-- What stands in front of a text in which the closer is sought decides where it is sought from. -/
theorem Sought.behind {found : Bool × Search} {depth' : Nat} {text' : List Char}
    (sought : Sought opener closer depth' opened text' found)
    (same : (delimitedBody? opener closer false depth text).isSome =
      (delimitedBody? opener closer false depth' text').isSome) :
    Sought opener closer depth opened text found :=
  ⟨sought.records, sought.closes.trans same.symm, sought.exhausts⟩

theorem sought_seek (records : Records opened search) :
    Sought opener closer depth opened search.reader.unread (seek opener closer depth search) := by
  fun_induction seek opener closer depth search with
  | case1 depth search ended advanced =>
    obtain ⟨records, unread, exhausted⟩ := records.ended advanced
    exact ⟨records, by rw [unread]; rfl, fun _ => exhausted⟩
  | case2 depth search after ended advanced escape =>
    obtain ⟨records, unread, exhausted⟩ := (records.advance escape).ended advanced
    refine ⟨records, ?_, fun _ => exhausted⟩
    rw [unread_of_advance escape, unread, delimitedBody?]
    rfl
  | case3 depth search between c after advanced _ escape _ ih =>
    refine (ih ((records.advance escape).advance advanced)).behind ?_
    rw [unread_of_advance escape, unread_of_advance advanced, delimitedBody?, Option.isSome_map]
  | case4 search after advanced _ plain =>
    refine ⟨records.advance advanced, ?_, fun missed => absurd missed.symm Bool.false_ne_true⟩
    rw [unread_of_advance advanced, delimitedBody?_plain _ _ _ _ plain, if_pos rfl, if_pos rfl]
    rfl
  | case5 depth search after inside advanced _ plain ih =>
    refine (ih (records.advance advanced)).behind ?_
    rw [unread_of_advance advanced, delimitedBody?_plain _ _ _ _ plain, if_pos rfl, if_neg inside,
      Option.isSome_map]
  | case6 depth search after advanced _ plain paired ih =>
    refine (ih (records.advance advanced)).behind ?_
    rw [unread_of_advance advanced, delimitedBody?_plain _ _ _ _ plain, if_neg paired, if_pos rfl,
      Option.isSome_map]
  | case7 depth search c after advanced _ plain noCloser noOpener ih =>
    refine (ih (records.advance advanced)).behind ?_
    rw [unread_of_advance advanced, delimitedBody?_plain _ _ _ _ plain, if_neg noCloser,
      if_neg noOpener, Option.isSome_map]

/-- Push back what was recorded, and restore the place where it began. -/
def rewind (search : Search) (place : Position) : Reader where
  unread := search.recorded ++ search.reader.unread
  position := place
  consumed := search.reader.consumed - search.recorded.length
  ahead := search.reader.ahead + search.recorded.length
  ended := search.reader.ended

/-- Where the closer does not come, pushing back leaves what stood there before the search, with the
whole text pulled. -/
theorem rewind_seek (bounded : opened.ahead ≤ opened.unread.length)
    (missing : ¬ ClosesLiteral opener closer 0 opened.unread) :
    (seek opener closer 0 ⟨opened, []⟩).2.rewind opened.position = opened.exhaust := by
  have begun : Records opened ⟨opened, []⟩ := Reader.Crosses.refl opened
  have sought : Sought opener closer 0 opened opened.unread (seek opener closer 0 ⟨opened, []⟩) :=
    sought_seek begun
  generalize seek opener closer 0 ⟨opened, []⟩ = found at sought
  obtain ⟨records, closes, exhausts⟩ := sought
  have failed : found.1 = false := by
    rw [closes, ← Bool.not_eq_true, isSome_delimitedBody?]
    exact missing
  obtain ⟨unread, ended⟩ := exhausts failed
  have whole := records.unread
  have pulled := records.ahead bounded
  rw [unread] at whole pulled
  rw [List.append_nil] at whole
  simp only [rewind, Reader.exhaust, unread, ended, List.append_nil, records.consumed,
    Reader.mk.injEq, true_and, and_true, whole]
  exact ⟨Nat.add_sub_cancel .., by rw [Nat.le_zero.mp pulled, Nat.zero_add]⟩

end Search

/-! ## Where literals begin -/

/-- The words that quote what stands behind them, with the fault of a literal that misses its end.
-/
def quotingWords : List (String × ScanCause) :=
  [("q", .unterminatedString), ("qq", .unterminatedString), ("qw", .unterminatedQuoteWords),
    ("m", .unterminatedRegex), ("qr", .unterminatedRegex)]

/-- What opens a literal in a context, with its opening delimiter and its fault: a quote, a slash
where no operand stands before it, and where no arrow does a quoting word with a delimiter. -/
inductive OpensLiteral (context : Context) : List Char → Char → ScanCause → Prop where
  | quote {quote : Char} (isQuote : quote ∈ ['"', '\'']) :
    OpensLiteral context [quote] quote .unterminatedString
  | slash (noOperand : context.afterOperand = false) :
    OpensLiteral context ['/'] '/' .unterminatedRegex
  | word {word : String} {cause : ScanCause} {opener : Char} (quotes : (word, cause) ∈ quotingWords)
    (noArrow : context.previous ≠ some .arrow) (delimits : isQuoteDelimiter opener = true) :
    OpensLiteral context (word.toList ++ [opener]) opener cause

namespace Reader

variable {reader : Reader} {context : Context}

/-- A delimiter is no part of a name, unless it is a colon that joins a part of it. -/
theorem nameText_delimiter (delimits : isQuoteDelimiter opener = true)
    (parts : opener = ':' → ∀ c more, rest = ':' :: c :: more → isNameStart c = false) :
    nameText (opener :: rest) = [] := by
  by_cases colon : opener = ':'
  · subst colon
    exact Taking.nameText_colon (parts rfl)
  · have noName : isNameChar opener = false := by
      simp only [isQuoteDelimiter, Bool.and_eq_true, Bool.not_eq_true', decide_eq_true_eq,
        List.mem_cons, not_or] at delimits
      simp [isNameChar, delimits.1.1, delimits.2.1]
    exact nameText_end _ noName colon

theorem nameText_word {word : List Char} (letters : ∀ c ∈ word, isNameStart c = true)
    (rest : List Char) : nameText (word ++ rest) = word ++ nameText rest := by
  induction word with
  | nil => rfl
  | cons c word ih =>
    have starts := letters c List.mem_cons_self
    have goesOn := isNameStart_isNameChar starts
    rw [List.cons_append, nameText_char _ goesOn,
      ih fun other member => letters other (List.mem_cons_of_mem _ member), List.cons_append]

/-- How a quoting word reads the literal behind it, given where the word begins, the reader behind
the opening delimiter, and the delimiter. -/
inductive Quoting : String → (Reader → Reader → Char → Reading) → Prop where
  | string : Quoting "q" fun reader opened opener => reader.delimitedString opened opener false
  | interpolated :
    Quoting "qq" fun reader opened opener => reader.delimitedString opened opener true
  | words : Quoting "qw" wordList
  | matching : Quoting "m" pattern
  | pattern : Quoting "qr" pattern

theorem Quoting.starts {word : String} {read : Reader → Reader → Char → Reading}
    (quoting : Quoting word read) : ∃ c more, word.toList = c :: more ∧ c ∈ ['q', 'm'] := by
  cases quoting <;> exact ⟨_, _, rfl, by decide⟩

/-- A quoting word, no arrow and a delimiter begin a literal. -/
theorem scan_quoting {word : String} {read : Reader → Reader → Char → Reading} {c : Char}
    {more : List Char} (quoting : Quoting word read) (spelled : word.toList = c :: more)
    (noArrow : context.previous ≠ some .arrow) (delimits : isQuoteDelimiter opener = true)
    (parts : opener = ':' → ∀ d others, rest = ':' :: d :: others → isNameStart d = false)
    (unread : reader.unread = word.toList ++ opener :: rest) :
    ∃ opened : Reader, reader.Crosses (word.toList ++ [opener]) opened ∧ opened.unread = rest ∧
      reader.scan context c = some (read reader opened opener) := by
  have letters : ∀ c ∈ word.toList, isNameStart c = true := by
    cases quoting <;> exact List.all_eq_true.mp (by decide)
  have name : reader.name.1 = word.toList := by
    rw [Reader.name, unread, nameText_word letters, nameText_delimiter delimits parts,
      List.append_nil]
  have crosses := crosses_name reader
  rw [name] at crosses
  have next : reader.name.2.unread = opener :: rest :=
    List.append_cancel_left (crosses.unread.symm.trans unread)
  have opened : reader.name.2.Crosses [opener] (reader.name.2.skip 1) := crosses_skip next
  have behind : (reader.name.2.skip 1).unread = rest := by rw [skip, next]; rfl
  have found : reader.name.2.unread.head?.filter
      (fun c => context.previous ≠ some .arrow && isQuoteDelimiter c) = some opener := by
    rw [next, List.head?_cons, Option.filter_some, if_pos (by simp [noArrow, delimits])]
  have literal : reader.word context.previous =
      some (read reader (reader.name.2.skip 1) opener) := by
    simp only [Reader.word, name, String.ofList_toList, found]
    cases quoting <;> rfl
  have starts : reader.scan context c = reader.word context.previous := by
    obtain ⟨first, others, spelled', first_mem⟩ := quoting.starts
    obtain rfl : c = first := (List.cons.inj (spelled.symm.trans spelled')).1
    simp only [List.mem_cons, List.not_mem_nil, or_false] at first_mem
    rcases first_mem with rfl | rfl <;> rfl
  exact ⟨_, crosses.trans opened, behind, starts.trans literal⟩

/-- How a literal that misses its end is given up: its fault stands where it begins, and the reader
behind its opening delimiter has pulled the whole text. -/
def GivesUp (reader : Reader) (context : Context) (opening : List Char) (cause : ScanCause) :
    Prop :=
  ∃ (c : Char) (more : List Char) (opened : Reader), reader.unread = c :: more ∧
    reader.scan context c = some (reader.fault cause, opened.exhaust) ∧
    reader.Crosses opening opened

theorem literal_missing {opened : Reader} {cause : ScanCause} {body : Option Body}
    {scanned : List Char → Reader → Reading} (missing : ¬ body.isSome = true) :
    reader.literal opened cause body scanned = (reader.fault cause, opened.exhaust) := by
  cases body with
  | none => rfl
  | some body => exact absurd rfl missing

theorem closingDelimiter_quote (isQuote : opener ∈ ['"', '\'']) :
    closingDelimiter opener = opener := by
  simp only [List.mem_cons, List.not_mem_nil, or_false] at isQuote
  rcases isQuote with rfl | rfl <;> rfl

/-- A quote begins a literal wherever it stands. -/
theorem scan_quote (isQuote : opener ∈ ['"', '\'']) :
    reader.scan context opener = some (reader.quoted opener) := by
  simp only [List.mem_cons, List.not_mem_nil, or_false] at isQuote
  rcases isQuote with rfl | rfl <;> rfl

theorem givesUp_quote (isQuote : opener ∈ ['"', '\'']) (unread : reader.unread = opener :: rest)
    (missing : ¬ ClosesLiteral opener (closingDelimiter opener) 0 rest) :
    reader.GivesUp context [opener] .unterminatedString := by
  rw [closingDelimiter_quote isQuote] at missing
  have behind : (reader.skip 1).unread = rest := by rw [skip, unread]; rfl
  refine ⟨opener, rest, reader.skip 1, unread, ?_, crosses_skip unread⟩
  rw [scan_quote isQuote, quoted, literal_missing]
  rwa [behind, isSome_quotedBody?, isSome_delimitedBody?]

theorem givesUp_slash (noOperand : context.afterOperand = false)
    (unread : reader.unread = '/' :: rest)
    (missing : ¬ ClosesLiteral '/' (closingDelimiter '/') 0 rest) :
    reader.GivesUp context ['/'] .unterminatedRegex := by
  have behind : (reader.skip 1).unread = rest := by rw [skip, unread]; rfl
  refine ⟨'/', rest, reader.skip 1, unread, ?_, crosses_skip unread⟩
  have slash : reader.scan context '/' = some (reader.pattern (reader.skip 1) '/') := by
    simp only [scan, noOperand]
    rfl
  rw [slash, pattern, literal_missing]
  rwa [behind, patternBody?, isSome_delimitedBody?]

/-- A literal behind a quoting word that misses its end is given up. -/
theorem exists_quoting {word : String} {cause : ScanCause} (quotes : (word, cause) ∈ quotingWords)
    (missing : ¬ ClosesLiteral opener (closingDelimiter opener) 0 rest) :
    ∃ read, Quoting word read ∧ ∀ reader opened : Reader, opened.unread = rest →
      read reader opened opener = (reader.fault cause, opened.exhaust) := by
  have string (interpolated : Bool) (reader opened : Reader) (behind : opened.unread = rest) :
      reader.delimitedString opened opener interpolated =
        (reader.fault .unterminatedString, opened.exhaust) := by
    rw [delimitedString, literal_missing]
    rwa [behind, textBody?, isSome_delimitedBody?]
  have words (reader opened : Reader) (behind : opened.unread = rest) :
      reader.wordList opened opener = (reader.fault .unterminatedQuoteWords, opened.exhaust) := by
    rw [wordList, literal_missing]
    rwa [behind, textBody?, isSome_delimitedBody?]
  have regex (reader opened : Reader) (behind : opened.unread = rest) :
      reader.pattern opened opener = (reader.fault .unterminatedRegex, opened.exhaust) := by
    rw [pattern, literal_missing]
    rwa [behind, patternBody?, isSome_delimitedBody?]
  simp only [quotingWords, List.mem_cons, Prod.mk.injEq, List.not_mem_nil, or_false] at quotes
  rcases quotes with ⟨rfl, rfl⟩ | ⟨rfl, rfl⟩ | ⟨rfl, rfl⟩ | ⟨rfl, rfl⟩ | ⟨rfl, rfl⟩
  · exact ⟨_, .string, string false⟩
  · exact ⟨_, .interpolated, string true⟩
  · exact ⟨_, .words, words⟩
  · exact ⟨_, .matching, regex⟩
  · exact ⟨_, .pattern, regex⟩

theorem givesUp_word {word : String} {cause : ScanCause} (quotes : (word, cause) ∈ quotingWords)
    (noArrow : context.previous ≠ some .arrow) (delimits : isQuoteDelimiter opener = true)
    (unread : reader.unread = word.toList ++ opener :: rest)
    (missing : ¬ ClosesLiteral opener (closingDelimiter opener) 0 rest) :
    reader.GivesUp context (word.toList ++ [opener]) cause := by
  obtain ⟨read, quoting, gives⟩ := exists_quoting quotes missing
  -- A colon behind a colon would close the literal.
  have parts : opener = ':' → ∀ c more, rest = ':' :: c :: more → isNameStart c = false := by
    rintro rfl c more rfl
    exact absurd (.closer (by decide)) missing
  obtain ⟨c, more, spelled, -⟩ := quoting.starts
  obtain ⟨opened, crosses, behind, scanned⟩ :=
    scan_quoting quoting spelled noArrow delimits parts unread
  refine ⟨c, more ++ opener :: rest, opened, ?_, ?_, crosses⟩
  · rw [unread, spelled, List.cons_append]
  · rw [scanned, gives reader opened behind]

/-- A literal that misses its end is given up, whatever opens it. -/
theorem givesUp_of_opens {opening : List Char} {cause : ScanCause}
    (opens : OpensLiteral context opening opener cause) (unread : reader.unread = opening ++ rest)
    (missing : ¬ ClosesLiteral opener (closingDelimiter opener) 0 rest) :
    reader.GivesUp context opening cause := by
  cases opens with
  | quote isQuote => exact givesUp_quote isQuote unread missing
  | slash noOperand => exact givesUp_slash noOperand unread missing
  | word quotes noArrow delimits =>
    rw [List.append_assoc] at unread
    exact givesUp_word quotes noArrow delimits unread missing

end Reader

/-- What opens a literal is no part of a gap. -/
theorem OpensLiteral.length {context : Context} {opening : List Char} {cause : ScanCause}
    (opens : OpensLiteral context opening opener cause) (rest : List Char) (atLineStart : Bool) :
    Gap.length .spaces atLineStart (opening ++ rest) = 0 := by
  have plain : ∀ c ∈ ['"', '\'', '/', 'q', 'm'], isGapSpace c = false ∧ c ≠ '#' ∧ c ≠ '=' :=
    List.all_iff_forall_prop.mp (by decide)
  have begins : ∀ entry ∈ quotingWords, entry.1.toList.head?.any (· ∈ ['q', 'm']) = true := by
    decide
  obtain ⟨c, more, same, first⟩ : ∃ c more, opening ++ rest = c :: more ∧
      c ∈ ['"', '\'', '/', 'q', 'm'] := by
    cases opens with
    | quote isQuote =>
      exact ⟨opener, rest, rfl, List.mem_append_left ['/', 'q', 'm'] isQuote⟩
    | slash => exact ⟨'/', rest, rfl, by decide⟩
    | word quotes =>
      obtain ⟨c, next, letter⟩ := (Option.any_eq_true ..).mp (begins _ quotes)
      obtain ⟨more, spelled⟩ := List.head?_eq_some_iff.mp next
      rw [spelled, List.cons_append, List.cons_append]
      exact ⟨c, _, rfl, List.mem_append_right ['"', '\'', '/'] (of_decide_eq_true letter)⟩
  obtain ⟨blank, hash, equals⟩ := plain c first
  rw [same]
  exact Gap.length_token blank hash (opensDocumentation_of_ne equals more) atLineStart

namespace Scanner

/-- From every state that scanning a text reaches, a literal that begins behind a gap and misses its
end is one fault, which stands at its first character. What is unread then is the text behind its
opening delimiter, at the place right behind the delimiter, as the characters that were read of the
literal and pushed back leave it, and the context is what it was before the literal. -/
theorem resumes_behind_opening {calls : Nat} {gap opening : List Char} {cause : ScanCause}
    (running : (called text calls).finished = false)
    (unread : (called text calls).reader.unread = gap ++ (opening ++ rest))
    (isGap : IsGap ((called text calls).reader.position.column = 1) gap (opening ++ rest))
    (opens : OpensLiteral (called text calls).context opening opener cause)
    (missing : ¬ ClosesLiteral opener (closingDelimiter opener) 0 rest) :
    answer text calls =
      some (.error ⟨cause, (called text calls).reader.position.after gap⟩) ∧
    (called text (calls + 1)).reader.unread = rest ∧
    (called text (calls + 1)).reader.position =
      (called text calls).reader.position.after (gap ++ opening) ∧
    (called text (calls + 1)).context = (called text calls).context ∧
    (called text (calls + 1)).finished = false ∧
    ∃ opened : Reader, (called text calls).reader.Crosses (gap ++ opening) opened ∧
      (called text (calls + 1)).reader =
        (Search.seek opener (closingDelimiter opener) 0 ⟨opened, []⟩).2.rewind opened.position := by
  have skipped := Reader.crosses_gap unread isGap (opens.length rest)
  have next : (called text calls).reader.skipGap.unread = opening ++ rest :=
    List.append_cancel_left (skipped.unread.symm.trans unread)
  obtain ⟨c, more, opened, begins, scanned, crosses⟩ := Reader.givesUp_of_opens opens next missing
  have behind : opened.unread = rest := List.append_cancel_left (crosses.unread.symm.trans next)
  have whole := skipped.trans crosses
  have read := next_of_scan running begins scanned
  rw [next_called] at read
  obtain ⟨found, after⟩ := Prod.mk.inj read
  have bounded : opened.ahead ≤ opened.unread.length := by
    obtain ⟨front, reached⟩ := crosses_called text calls
    obtain ⟨-, -, -, -, bounded, -⟩ := Reader.start_behind_mark text
    exact (reached.trans whole).ahead bounded
  have pushed := Search.rewind_seek bounded (by rwa [behind])
  rw [found, after]
  refine ⟨?_, behind, whole.position, rfl, rfl, opened, whole, pushed.symm⟩
  rw [← skipped.position]
  rfl

/-- Behind the angles that nest in it the closer of this word list is escaped. -/
theorem resumes_behind_opening_words : ∃ (text : List Char) (after : Scanner),
    text = "f\n # c\n qw<a\n<b>\\>".toList ∧ after = called text 2 ∧
    answer text 1 = some (.error ⟨.unterminatedQuoteWords, ⟨3, 2⟩⟩) ∧
    after.reader.unread = "a\n<b>\\>".toList ∧ after.reader.position = ⟨3, 5⟩ ∧
    after.context = (called text 1).context ∧ after.finished = false := by
  obtain ⟨found, unread, position, context, running, -⟩ :=
    @resumes_behind_opening '<' "f\n # c\n qw<a\n<b>\\>".toList "a\n<b>\\>".toList 1
      "\n # c\n ".toList ("qw".toList ++ ['<']) .unterminatedQuoteWords (by decide +kernel)
      (by decide +kernel)
      (.space rfl (.space rfl (@IsGap.comment _ [' ', 'c'] ['\n', ' '] _ (by decide)
        (fun c newline => (Option.some.inj newline).symm)
        (.space rfl (.space rfl (.nil _ _))))))
      (.word (by decide) (by decide +kernel) (by decide)) (by decide +kernel)
  have place : (called "f\n # c\n qw<a\n<b>\\>".toList 1).reader.position = ⟨1, 2⟩ := by
    decide +kernel
  rw [place] at found position
  exact ⟨_, _, rfl, rfl, found, unread, position, context, running⟩

end Scanner

end SigilScript
