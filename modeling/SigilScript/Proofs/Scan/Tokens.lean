import SigilScript.Proofs.Scan.Composition
import SigilScript.Proofs.Spacing

/-! # Texts token by token

What a token is read from has to be judged with the text behind it, since the longest spelling wins.
So a reading names the slice and what stands behind it, and a text is scanned as the tokens whose
slices it is put together from, each at the place that the slices in front of it lead to.
-/

namespace SigilScript

/-- Whether a token of this kind and text is read from a slice in front of a tail, wherever they
stand, and is no part of a gap there. -/
structure ReadsAs (context : Context) (slice tail : List Char) (kind : TokenKind) (text : String) :
    Prop where
  solid : ∃ c more, slice = c :: more ∧ isGapSpace c = false ∧ c ≠ '#' ∧
    opensDocumentation (slice ++ tail) = false
  scans : ∀ (reader : Reader) (c : Char) (rest : List Char), reader.unread = slice ++ tail →
    reader.unread = c :: rest → ∃ after,
      reader.scan context c = some (.ok ⟨kind, text, reader.position⟩, after) ∧ after.unread = tail

/-- Whether a scanner that stands at this place in this context reads the unread text as these
tokens. -/
def ScansAs (context : Context) (position : Position) (unread : List Char) (tokens : List Token) :
    Prop :=
  ∀ scanner : Scanner, scanner.finished = false → scanner.context = context →
    scanner.reader.position = position → scanner.reader.unread = unread →
      scanner.remaining = tokens.map .ok

variable {context : Context} {position : Position} {spacing slice tail text : List Char}
  {tokens : List Token} {kind : TokenKind} {spelling : String}

namespace ScansAs

theorem nil (context : Context) (position : Position) : ScansAs context position [] [] :=
  fun _ _ _ _ unread => Scanner.remaining_of_unread unread

/-- A token behind some spacing, and what is read behind it. -/
theorem cons (isSpacing : Spacing spacing) (reads : ReadsAs context slice tail kind spelling)
    (further : ScansAs (context.next ⟨kind, spelling, .start⟩)
      ((position.after spacing).after slice) tail tokens) :
    ScansAs context position (spacing ++ (slice ++ tail))
      (⟨kind, spelling, position.after spacing⟩ :: tokens) := by
  rintro scanner running rfl rfl unread
  obtain ⟨c, more, rfl, blank, comment, documentation⟩ := reads.solid
  have skipped := Reader.crosses_gap unread (isSpacing.isGap _ _)
    (Gap.length_token blank comment documentation)
  have behind : scanner.reader.skipGap.unread = c :: more ++ tail :=
    List.append_cancel_left (skipped.unread.symm.trans unread)
  obtain ⟨after, scanned, rest⟩ := reads.scans _ c (more ++ tail) behind behind
  obtain ⟨slice, crosses, -⟩ := Reader.slices_scan behind scanned
  -- What the reader crosses is the slice, since the tail is left.
  have same : slice = c :: more := by
    have whole := crosses.unread
    rw [behind, rest] at whole
    exact (List.append_cancel_right whole).symm
  rw [Scanner.remaining_of_some (Scanner.next_of_scan running behind scanned), List.map_cons,
    ← skipped.position]
  refine congrArg _ (further _ rfl rfl ?_ rest)
  rw [← skipped.position, ← same]
  exact crosses.position

/-- A token at once, and what is read behind it. -/
theorem cons_adjacent (reads : ReadsAs context slice tail kind spelling)
    (further : ScansAs (context.next ⟨kind, spelling, .start⟩) (position.after slice) tail tokens) :
    ScansAs context position (slice ++ tail) (⟨kind, spelling, position⟩ :: tokens) :=
  cons .nil reads further

/-- A text without a byte order mark is scanned as the tokens that it is put together from. -/
theorem scan (scans : ScansAs .start .start text tokens) (noMark : text.head? ≠ some '\ufeff') :
    SigilScript.scan text = tokens.map .ok := by
  rw [scan_eq_remaining]
  have begins : (Reader.start text).position = .start ∧ (Reader.start text).unread = text := by
    rcases text with _ | ⟨c, rest⟩
    · exact ⟨rfl, rfl⟩
    · have other : c ≠ '\ufeff' := fun mark => noMark (congrArg some mark)
      simp only [Reader.start, if_neg other, and_self]
  exact scans _ rfl rfl begins.1 begins.2

end ScansAs

/-! ## Names -/

/-- A letter or an underscore, followed by letters, digits and underscores. -/
def IsIdentifier (word : List Char) : Prop :=
  ∃ c more, word = c :: more ∧ isNameStart c = true ∧ ∀ d ∈ more, isNameChar d = true

/-- What a word is scanned as where it opens no literal. -/
def wordKind (word : List Char) : TokenKind := if opensVersion word then .number else .identifier

/-- Whether a character may stand right behind a name and goes on in no name. -/
def endsName (c : Char) : Bool := !isNameChar c && c ≠ ':'

/-- Whether it may stand right behind a word without a change to how the word is read: it delimits no
literal either. -/
def endsWord (c : Char) : Bool := endsName c && !isQuoteDelimiter c

/-- A name goes as far as its characters do, up to one that ends it. -/
theorem nameText_append {c : Char} (goesOn : ∀ d ∈ slice, isNameChar d = true)
    (ends : endsName c = true) (rest : List Char) : nameText (slice ++ c :: rest) = slice := by
  induction slice with
  | nil =>
    simp only [endsName, Bool.and_eq_true, Bool.not_eq_true', decide_eq_true_eq] at ends
    obtain ⟨stops, noColon⟩ := ends
    exact nameText_end rest stops noColon
  | cons d slice ih =>
    have accepted := goesOn d List.mem_cons_self
    rw [List.cons_append, nameText_char _ accepted,
      ih fun other member => goesOn other (List.mem_cons_of_mem _ member)]

namespace IsIdentifier

variable {word : List Char}

instance decidable (word : List Char) : Decidable (IsIdentifier word) :=
  match word with
  | [] => .isFalse fun ⟨_, _, same, _⟩ => nomatch same
  | c :: more =>
    decidable_of_iff (isNameStart c = true ∧ more.all isNameChar = true)
      ⟨fun ⟨starts, goesOn⟩ => ⟨c, more, rfl, starts, List.all_eq_true.mp goesOn⟩,
        fun ⟨_, _, same, starts, goesOn⟩ => by
          obtain ⟨rfl, rfl⟩ := List.cons.inj same
          exact ⟨starts, List.all_eq_true.mpr goesOn⟩⟩

theorem goesOn (isIdentifier : IsIdentifier word) : ∀ d ∈ word, isNameChar d = true := by
  obtain ⟨c, more, rfl, starts, goesOn⟩ := isIdentifier
  exact List.forall_mem_cons.mpr ⟨Reader.isNameStart_isNameChar starts, goesOn⟩

theorem no_newline (isIdentifier : IsIdentifier word) : '\n' ∉ word := by
  intro member
  exact absurd (isIdentifier.goesOn _ member) (by decide)

end IsIdentifier

theorem Reader.name_identifier {reader : Reader} {word : List Char} {c : Char} {rest : List Char}
    (isIdentifier : IsIdentifier word) (ends : endsName c = true)
    (unread : reader.unread = word ++ c :: rest) :
    reader.name.1 = word ∧ reader.name.2.unread = c :: rest := by
  have taken : nameText (word ++ c :: rest) = word := nameText_append isIdentifier.goesOn ends rest
  simp only [name, skip, look, unread, taken, List.drop_left, and_self]

theorem not_isDigit_of_isNameStart {c : Char} (starts : isNameStart c = true) :
    c.isDigit = false := by
  simp only [isNameStart, Bool.or_eq_true, decide_eq_true_eq] at starts
  rcases starts with letter | rfl
  · delta Char.isAlpha Char.isUpper Char.isLower at letter
    delta Char.isDigit
    grind
  · rfl

/-- A word is read where a name begins. -/
theorem Reader.scan_word {reader : Reader} {c : Char} (starts : isNameStart c = true) :
    reader.scan context c = reader.word context.previous := by
  have noQuote : (c = '"' || c = '\'') = false := by
    rw [Bool.or_eq_false_iff, decide_eq_false_iff_not, decide_eq_false_iff_not]
    constructor
    · rintro rfl
      exact absurd starts (by decide)
    · rintro rfl
      exact absurd starts (by decide)
  simp only [scan, not_isDigit_of_isNameStart starts, noQuote, starts, Bool.false_eq_true,
    ↓reduceIte]

/-! ## Operators -/

/-- Whether a character begins no token but an operator or, where an operand is expected, a number, a
variable or a pattern. -/
def opensOperator (c : Char) : Bool :=
  !c.isDigit && !isNameStart c && !isGapSpace c && c ∉ ['"', '\'', '$', '@', '#']

theorem opensOperator_of_mem {spelling : String} (listed : spelling ∈ operatorSpellings) :
    spelling.toList.head?.any opensOperator = true := by
  have every : ∀ spelling ∈ operatorSpellings, spelling.toList.head?.any opensOperator = true := by
    decide
  exact every spelling listed

/-- An operator opens no documentation, unless it is an equals sign with a letter behind it. -/
theorem undocumented {d : Char} {more : List Char} (listed : spelling ∈ operatorSpellings)
    (same : spelling.toList = d :: more)
    (noLetter : spelling = "=" → tail.head?.any Char.isAlpha = false) :
    opensDocumentation (d :: more ++ tail) = false := by
  by_cases equals : d = '='
  · subst equals
    rw [List.cons_append, opensDocumentation_equals]
    cases more with
    | nil => exact noLetter (String.toList_inj.mp same)
    | cons e more =>
      have noLetter := Reader.undocumented_operators spelling listed
      rwa [same] at noLetter
  · exact opensDocumentation_of_ne equals _

/-! ## How tokens are read -/

namespace ReadsAs

variable {word : List Char} {c : Char} {rest : List Char}

/-- What opens a token that is no operator. -/
theorem solid_of_starts {d : Char} {more : List Char} (starts : isGapSpace d = false)
    (other : d ≠ '#' ∧ d ≠ '=') (tail : List Char) :
    ∃ c rest, d :: more = c :: rest ∧ isGapSpace c = false ∧ c ≠ '#' ∧
      opensDocumentation (d :: more ++ tail) = false :=
  ⟨d, more, rfl, starts, other.1, opensDocumentation_of_ne other.2 _⟩

/-- What opens a name opens no gap. -/
theorem solid_of_isNameStart {d : Char} {more : List Char} (starts : isNameStart d = true)
    (tail : List Char) : ∃ c rest, d :: more = c :: rest ∧ isGapSpace c = false ∧ c ≠ '#' ∧
      opensDocumentation (d :: more ++ tail) = false := by
  refine solid_of_starts (Bool.eq_false_iff.mpr fun blank => ?_) ⟨?_, ?_⟩ tail
  · have other := (show RejectsPartings isNameStart by decide) d (mem_partings blank)
    exact Bool.noConfusion (starts.symm.trans other)
  · rintro rfl
    exact absurd starts (by decide)
  · rintro rfl
    exact absurd starts (by decide)

/-- A dollar sign and an identifier are a variable. -/
theorem scalar (context : Context) (isIdentifier : IsIdentifier word) (ends : endsName c = true)
    (rest : List Char) :
    ReadsAs context ('$' :: word) (c :: rest) (.var .scalar) (String.ofList ('$' :: word)) := by
  refine ⟨solid_of_starts rfl (by decide) _, fun reader d more unread same => ?_⟩
  obtain ⟨rfl, -⟩ := List.cons.inj (same.symm.trans unread)
  obtain ⟨first, others, rfl, starts, -⟩ := id isIdentifier
  have behind : ((reader.look 3).skip 1).unread = first :: others ++ c :: rest := by
    simp only [Reader.skip, Reader.look, unread, List.cons_append, List.drop_succ_cons,
      List.drop_zero]
  obtain ⟨name, after⟩ := Reader.name_identifier isIdentifier ends behind
  have next : (reader.look 3).peek? 1 = some first := by
    simp only [Reader.peek?, Reader.look, unread]
    rfl
  have sigil : reader.scan context '$' = some (reader.sigil .scalar) := rfl
  refine ⟨((reader.look 3).skip 1).name.2, ?_, after⟩
  simp only [sigil, Reader.sigil, next, Option.any_some, starts, ↓reduceIte, Sigil.char,
    List.length_singleton, name, Reader.token, List.singleton_append]

/-- An identifier in front of what ends it is a word, or a version where it is spelled as one. -/
theorem word_or_version (context : Context) (isIdentifier : IsIdentifier word)
    (goesOn : isEndWord (String.ofList word) = false) (ends : endsWord c = true)
    (rest : List Char) :
    ReadsAs context word (c :: rest) (wordKind word) (String.ofList word) := by
  obtain ⟨first, others, rfl, starts, -⟩ := id isIdentifier
  refine ⟨solid_of_isNameStart starts _, fun reader d more unread same => ?_⟩
  obtain ⟨rfl, -⟩ := List.cons.inj (same.symm.trans unread)
  simp only [endsWord, Bool.and_eq_true, Bool.not_eq_true'] at ends
  obtain ⟨ends, noDelimiter⟩ := ends
  obtain ⟨name, after⟩ := Reader.name_identifier isIdentifier ends unread
  have unquoted : reader.name.2.unread.head?.any isQuoteDelimiter = false := by
    rw [after, List.head?_cons, Option.any_some, noDelimiter]
  have unbroken : versionText false (c :: rest) = [] := by
    refine versionText_end rest (Bool.false_and _) ?_
    rintro rfl
    exact absurd noDelimiter (by decide)
  rw [Reader.scan_word starts, Reader.Twin.word_unquoted (name ▸ goesOn) unquoted, name]
  simp only [Reader.word.plainWord, wordKind]
  split
  · refine ⟨reader.name.2.versionParts.2, ?_, ?_⟩
    · simp only [Reader.versionParts, after, unbroken, List.append_nil, Reader.token]
    · simp only [Reader.versionParts, Reader.skip, Reader.look, after, unbroken, List.length_nil,
        List.drop_zero]
  · exact ⟨_, rfl, after⟩

/-- An operator is read where it is the longest that fits. Behind an operand that is so whatever it
is; elsewhere three characters begin something else. -/
theorem spelled (found : operatorAt (spelling.toList ++ tail) = some spelling)
    (documentation : spelling = "=" → tail.head?.any Char.isAlpha = false)
    (operand : context.afterOperand = true ∨
      spelling.toList.head?.any (fun d => d = '.' || d = '%' || d = '/') = false) :
    ReadsAs context spelling.toList tail (.ofOperator spelling) spelling := by
  have listed := List.mem_of_find?_eq_some found
  obtain ⟨d, first, opens⟩ := (Option.any_eq_true ..).mp (opensOperator_of_mem listed)
  obtain ⟨more, same⟩ := List.head?_eq_some_iff.mp first
  simp only [opensOperator, Bool.and_eq_true, Bool.not_eq_true', decide_eq_true_eq, List.mem_cons,
    List.not_mem_nil, or_false, not_or] at opens
  obtain ⟨⟨⟨noDigit, noName⟩, blank⟩, quote, tick, dollar, at_, comment⟩ := opens
  refine ⟨⟨d, more, same, blank, comment, ?_⟩, fun reader e rest unread behind => ?_⟩
  · rw [same]
    exact undocumented listed same documentation
  · obtain rfl : e = d := by
      rw [unread, same] at behind
      exact (List.cons.inj behind).1.symm
    have scanned : reader.scan context e = some reader.operator := by
      rcases operand with operand | other
      · simp [Reader.scan, noDigit, noName, quote, tick, dollar, at_, operand]
      · simp only [first, Option.any_some, Bool.or_eq_false_iff, decide_eq_false_iff_not] at other
        refine Reader.scan_operator noDigit noName ?_ reader context
        simp [quote, tick, dollar, at_, other]
    refine ⟨(reader.look 3).skip spelling.length, ?_, ?_⟩
    · rw [scanned, Reader.operator_eq, unread, found]
    · simp only [Reader.skip, Reader.look, unread, ← String.length_toList, List.drop_left]

end ReadsAs

/-- A semicolon at the end of a text. -/
theorem ScansAs.semicolon (context : Context) (position : Position) :
    ScansAs context position [';'] [⟨.semicolon, ";", position⟩] := by
  have found : operatorAt (";".toList ++ []) = some ";" := rfl
  exact .cons_adjacent (.spelled found nofun (.inr rfl)) (.nil _ _)

end SigilScript
