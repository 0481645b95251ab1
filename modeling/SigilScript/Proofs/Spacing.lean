import SigilScript.Proofs.Scan.Calls
import SigilScript.Proofs.Scan.Leaning
import SigilScript.Proofs.Verdict

/-! # Spacing

What stands between tokens does not matter. A text that is made of the slices another text's tokens
are read from, with any spaces and comments between them, has the same tokens; only what a sigil
dereferences has to stay right behind it.
-/

namespace SigilScript

/-- Spaces, and comments that end with their line. -/
inductive Spacing : List Char → Prop where
  | nil : Spacing []
  | space {c : Char} {more : List Char} (blank : isGapSpace c = true) (further : Spacing more) :
    Spacing (c :: more)
  | comment {body more : List Char} (single : '\n' ∉ body) (further : Spacing more) :
    Spacing ('#' :: body ++ '\n' :: more)

/-- What keeps two tokens apart: spacing that begins with a space. -/
structure Separates (spacing : List Char) : Prop where
  isSpacing : Spacing spacing
  begins : spacing.head?.any isGapSpace = true

/-- The slice of the text that the next call reads its item from. -/
def Scanner.slice (scanner : Scanner) : List Char :=
  scanner.reader.skipGap.unread.take
    (scanner.next.2.reader.consumed - scanner.reader.skipGap.consumed)

/-- The tokens that a scanner is about to read, each with its slice. -/
def Scanner.slices : Scanner → List Token → List (Token × List Char)
  | _, [] => []
  | scanner, token :: tokens => (token, scanner.slice) :: scanner.next.2.slices tokens

/-- How slices are laid out as a text: what leans on the slice behind it is joined to that slice,
and other slices are kept apart. -/
inductive Relaid : List (Token × List Char) → List Char → Prop where
  | nil : Relaid [] []
  | last (token : Token) (slice : List Char) : Relaid [(token, slice)] slice
  | apart {token : Token} {slice spacing text : List Char} {next : Token × List Char}
    {slices : List (Token × List Char)} (alone : token.kind.leans = false)
    (separates : Separates spacing) (further : Relaid (next :: slices) text) :
    Relaid ((token, slice) :: next :: slices) (slice ++ (spacing ++ text))
  | joined {token : Token} {slice text : List Char} {next : Token × List Char}
    {slices : List (Token × List Char)} (leans : token.kind.leans = true)
    (further : Relaid (next :: slices) text) :
    Relaid ((token, slice) :: next :: slices) (slice ++ text)

/-- What a token says, wherever it stands. -/
def Token.content (token : Token) : TokenKind × String := (token.kind, token.text)

/-! ## Gaps -/

theorem Spacing.isGap {spacing : List Char} (isSpacing : Spacing spacing) (atLineStart : Bool)
    (rest : List Char) : IsGap atLineStart spacing rest := by
  induction isSpacing generalizing atLineStart with
  | nil => exact .nil _ _
  | space blank _ ih => exact .space blank (ih _)
  | comment single _ ih =>
    -- The newline that ends a comment is a space behind it.
    exact .comment single (fun c newline => (Option.some.inj newline).symm) (.space rfl (ih _))

theorem mem_partings {c : Char} (blank : isGapSpace c = true) : c ∈ partings := by
  simp only [isGapSpace, Bool.or_eq_true, decide_eq_true_eq] at blank
  obtain (((rfl | rfl) | rfl) | rfl) | rfl := blank <;> decide

theorem Separates.parts {spacing : List Char} (separates : Separates spacing) (text : List Char) :
    Parts (spacing ++ text) := by
  obtain ⟨c, first, blank⟩ := (Option.any_eq_true ..).mp separates.begins
  obtain ⟨more, rfl⟩ := List.head?_eq_some_iff.mp first
  exact parts_cons (mem_partings blank) (more ++ text)

/-- The first slice of a text, and what is laid out behind it. -/
theorem Relaid.first {token : Token} {slice text : List Char} {slices : List (Token × List Char)}
    (relaid : Relaid ((token, slice) :: slices) text) :
    ∃ spacing behind, text = slice ++ (spacing ++ behind) ∧ Spacing spacing ∧ Relaid slices behind ∧
      (token.kind.leans = false → Parts (spacing ++ behind)) ∧
      (token.kind.leans = true → spacing = []) := by
  cases relaid with
  | last => exact ⟨[], [], by simp, .nil, .nil, fun _ => nofun, fun _ => rfl⟩
  | apart alone separates further =>
    refine ⟨_, _, rfl, separates.isSpacing, further, fun _ => separates.parts _, fun leans => ?_⟩
    rw [alone] at leans
    contradiction
  | @joined _ _ text _ _ leans further =>
    refine ⟨[], text, rfl, .nil, further, fun alone => ?_, fun _ => rfl⟩
    rw [leans] at alone
    contradiction

/-! ## One token -/

namespace Reader

variable {reader other after : Reader} {context : Context} {c : Char} {more tail : List Char}
  {token : Token}

/-- A token that stands alone is read again where it is parted from what stands behind it, and one
that leans is where it leans on what begins alike. -/
theorem scan_again (read : reader.scan context c = some (.ok token, after))
    (unread : reader.unread = c :: more ++ after.unread)
    (unread' : other.unread = c :: more ++ tail)
    (parts : token.kind.leans = false → Parts tail)
    (alike : token.kind.leans = true → BeginAlike after.unread tail) :
    ∃ item after', other.scan context c = some (item, after') ∧ gistOf item = gistOf (.ok token) ∧
      after'.unread = tail := by
  cases leans : token.kind.leans with
  | true => exact leans_again read leans unread rfl unread' (alike leans)
  | false =>
    have twin : Twin false after.unread tail reader other := ⟨⟨c :: more, unread, unread'⟩, nofun⟩
    have inside : after.unread.length < reader.unread.length := by
      rw [unread, List.length_append, List.length_cons]
      omega
    obtain ⟨⟨item, after'⟩, again, content, ⟨front, same, same'⟩, -⟩ :=
      twin.scan context unread inside _ read (.parted (parts leans) (Nat.le_refl _)) fun _ leans' =>
        absurd (leans.symm.trans leans') Bool.false_ne_true
    obtain rfl := List.self_eq_append_left.mp same
    exact ⟨item, after', again, content, same'⟩

/-- A character that begins nothing else is read as an operator. -/
theorem scan_operator (noDigit : c.isDigit = false) (noName : isNameStart c = false)
    (other : c ∉ ['"', '\'', '$', '@', '.', '%', '/']) (reader : Reader) (context : Context) :
    reader.scan context c = some reader.operator := by
  simp only [List.mem_cons, List.not_mem_nil, or_false, not_or] at other
  cases operand : context.afterOperand <;> simp [scan, noDigit, noName, other, operand]

/-- No token begins with a byte order mark. -/
theorem ne_mark_of_scan {rest : List Char} (unread : reader.unread = c :: rest)
    (read : reader.scan context c = some (.ok token, after)) : c ≠ '\ufeff' := by
  rintro rfl
  rw [scan_operator (by decide) (by decide) (by decide), operator_eq, unread] at read
  split at read
  · next spelling found =>
    have others : ∀ spelling ∈ operatorSpellings,
        spelling.toList.head?.any (· ≠ '\ufeff') = true := by decide
    obtain ⟨d, first, noMark⟩ :=
      (Option.any_eq_true ..).mp (others spelling (List.mem_of_find?_eq_some found))
    obtain ⟨more, spelled⟩ := List.head?_eq_some_iff.mp first
    obtain ⟨behind, begins⟩ := begins_of_operatorAt found
    rw [spelled] at begins
    exact of_decide_eq_true noMark (List.cons.inj begins).1
  · exact absurd (Prod.mk.inj (Option.some.inj read)).1 nofun

/-- No operator goes on in a letter. -/
theorem undocumented_operators :
    ∀ spelling ∈ operatorSpellings, spelling.toList.tail.head?.any Char.isAlpha = false := by
  decide

/-- An equals sign that is read as a token opens no documentation, wherever it stands. -/
theorem undocumented_of_scan (read : reader.scan context '=' = some (.ok token, after))
    (unread : reader.unread = '=' :: more ++ after.unread)
    (parts : token.kind.leans = false → Parts tail) :
    opensDocumentation ('=' :: more ++ tail) = false := by
  have same : reader.operator = (.ok token, after) :=
    Option.some.inj
      ((scan_operator (by decide) (by decide) (by decide) reader context).symm.trans read)
  have alone : token.kind.leans = false := by
    have alone := reader.leans_operator
    rwa [same] at alone
  rw [operator_eq] at same
  split at same
  · next spelling found =>
    obtain ⟨rest, begins⟩ := begins_of_operatorAt found
    obtain rfl := (Prod.mk.inj same).2
    -- The slice is the spelling of the operator.
    have behind : ((reader.look 3).skip spelling.length).unread = rest := by
      rw [skip, look, ← begins, ← String.length_toList, List.drop_left]
    rw [behind, ← begins] at unread
    have spelled := List.append_cancel_right unread
    have noLetter := undocumented_operators spelling (List.mem_of_find?_eq_some found)
    rw [spelled, List.tail_cons] at noLetter
    rw [List.cons_append, opensDocumentation_equals]
    cases more with
    | nil => exact (parts alone).any (by decide)
    | cons d more => exact noLetter
  · simp [fault] at same

/-- A token begins no gap, wherever it stands. -/
theorem length_of_scan (read : reader.scan context c = some (.ok token, after))
    (unread : reader.unread = c :: more ++ after.unread) (solid : isGapSpace c = false)
    (noComment : c ≠ '#') (parts : token.kind.leans = false → Parts tail) (atLineStart : Bool) :
    Gap.length .spaces atLineStart (c :: more ++ tail) = 0 := by
  refine Gap.length_token solid noComment ?_ atLineStart
  by_cases equals : c = '='
  · subst equals
    exact undocumented_of_scan read unread parts
  · exact opensDocumentation_of_ne equals _

end Reader

/-! ## One call -/

theorem Context.next_content {token token' : Token} (same : token'.content = token.content)
    (context : Context) : context.next token' = context.next token := by
  obtain ⟨kind, text, position⟩ := token
  obtain ⟨kind', text', position'⟩ := token'
  obtain ⟨rfl, rfl⟩ : kind' = kind ∧ text' = text := Prod.mk.inj same
  rfl

/-- Tokens that say the same lead to the same context, wherever they stand. -/
theorem Context.after_content {tokens tokens' : List Token}
    (same : tokens'.map Token.content = tokens.map Token.content) (context : Context) :
    context.after tokens' = context.after tokens := by
  induction tokens generalizing tokens' context with
  | nil =>
    obtain rfl := List.map_eq_nil_iff.mp same
    rfl
  | cons token tokens ih =>
    obtain ⟨token', tokens', rfl, head, tail⟩ := List.map_eq_cons_iff.mp same
    rw [after_cons, after_cons, next_content head]
    exact ih tail (context.next token)

namespace Scanner

variable {scanner other after : Scanner} {token : Token} {tokens : List Token}
  {spacing tail text : List Char}

/-- The slice of a token is what its call reads behind the gap. -/
theorem slice_of_next {item : Scanned} (read : scanner.next = (some item, after)) :
    ∃ c more, scanner.slice = c :: more ∧
      scanner.reader.skipGap.unread = c :: more ++ after.reader.unread ∧
      scanner.reader.skipGap.scan scanner.context c = some (item, after.reader) := by
  obtain ⟨-, c, rest, reader, unread, scanned, rfl⟩ := scan_of_next read
  obtain ⟨slice, crosses, -⟩ := Reader.slices_scan unread scanned
  have cut : scanner.slice = slice := by
    rw [Scanner.slice, read, crosses.consumed, Nat.add_sub_cancel_left, crosses.unread,
      List.take_left]
  cases slice with
  | nil =>
    have shorter := (Reader.advances_scan unread scanned).length_lt
    rw [crosses.unread, List.nil_append] at shorter
    exact absurd shorter (Nat.lt_irrefl _)
  | cons d more =>
    obtain ⟨rfl, -⟩ := List.cons.inj (unread.symm.trans crosses.unread)
    exact ⟨c, more, cut, crosses.unread, scanned⟩

/-- A call reads a token again where its slice stands behind other spacing. -/
theorem next_again (read : scanner.next = (some (.ok token), after))
    (running : other.finished = false) (context : other.context = scanner.context)
    (isSpacing : Spacing spacing)
    (unread' : other.reader.unread = spacing ++ (scanner.slice ++ tail))
    (parts : token.kind.leans = false → Parts tail)
    (alike : token.kind.leans = true → BeginAlike after.reader.unread tail) :
    ∃ token' after', other.next = (some (.ok token'), after') ∧ token'.content = token.content ∧
      after'.finished = false ∧ after'.context = after.context ∧ after'.reader.unread = tail := by
  obtain ⟨-, _, _, _, -, -, rfl⟩ := scan_of_next read
  obtain ⟨c, more, cut, unread, scanned⟩ := slice_of_next read
  obtain ⟨solid, noComment⟩ := Reader.solid_skipGap unread
  rw [cut] at unread'
  have skipped := Reader.crosses_gap unread' (isSpacing.isGap _ _)
    (Reader.length_of_scan scanned unread solid noComment parts)
  have behind := List.append_cancel_left (skipped.unread.symm.trans unread')
  obtain ⟨item, after', again, content, rest⟩ :=
    Reader.scan_again scanned unread behind parts alike
  rw [← context] at again
  have next := next_of_scan running behind again
  cases item with
  | error fault => contradiction
  | ok token' =>
    have same : token'.content = token.content := Except.ok.inj content
    refine ⟨token', _, next, same, rfl, ?_, rest⟩
    rw [context]
    exact Context.next_content same _

end Scanner

/-! ## What a sigil leans on -/

theorem Reader.scan_isSome {c : Char} (noName : isNameStart c = false) (reader : Reader)
    (context : Context) : ∃ reading, reader.scan context c = some reading := by
  simp only [scan, noName, Bool.false_eq_true, if_false]
  repeat' split
  all_goals exact ⟨_, rfl⟩

namespace Scanner

/-- A running scanner that stands right behind a sigil that leans on what comes next. -/
structure Leant (scanner : Scanner) : Prop where
  running : scanner.finished = false
  begins : ∃ d more, scanner.reader.unread = d :: more ∧ d ∈ ['*', '[', '{', '$']

variable {scanner after : Scanner} {token : Token} {tokens : List Token} {text : List Char}

theorem leant_of_next (read : scanner.next = (some (.ok token), after))
    (leans : token.kind.leans = true) : after.Leant := by
  obtain ⟨-, _, _, _, unread, scanned, rfl⟩ := scan_of_next read
  exact ⟨rfl, Reader.unread_of_leans scanned leans⟩

namespace Leant

/-- What a sigil leans on begins no gap. -/
theorem unread (leant : scanner.Leant) : scanner.reader.skipGap.unread = scanner.reader.unread := by
  obtain ⟨d, more, comes, member⟩ := leant.begins
  have plain : ∀ d ∈ ['*', '[', '{', '$'], isGapSpace d = false ∧ d ≠ '#' ∧ d ≠ '=' :=
    List.all_iff_forall_prop.mp (by decide)
  obtain ⟨solid, noComment, noEquals⟩ := plain d member
  rw [comes]
  exact (Reader.skipGap_solid solid noComment noEquals (.nil _ _) comes).1

/-- What a sigil leans on begins an item. -/
theorem next (leant : scanner.Leant) : ∃ item after, scanner.next = (some item, after) := by
  obtain ⟨d, more, comes, member⟩ := leant.begins
  have plain : ∀ d ∈ ['*', '[', '{', '$'], isNameStart d = false :=
    List.all_iff_forall_prop.mp (by decide)
  obtain ⟨⟨item, reader⟩, scanned⟩ :=
    Reader.scan_isSome (plain d member) scanner.reader.skipGap scanner.context
  exact ⟨item, _, next_of_scan leant.running (leant.unread.trans comes) scanned⟩

/-- The token that a sigil leans on, and what is laid out from it on. -/
theorem relaid (leant : scanner.Leant) (sound : scanner.remaining = tokens.map .ok)
    (relaid : Relaid (scanner.slices tokens) text) :
    ∃ token more after c slice behind,
      scanner.next = (some (.ok token), after) ∧ after.remaining = more.map .ok ∧
      scanner.reader.unread = c :: slice ++ after.reader.unread ∧ text = c :: slice ++ behind ∧
      scanner.reader.skipGap.scan scanner.context c = some (.ok token, after.reader) ∧
      (token.kind.leans = true → Relaid (after.slices more) behind) := by
  obtain ⟨item, after, read⟩ := leant.next
  rw [remaining_of_some read] at sound
  cases tokens with
  | nil => contradiction
  | cons token more =>
    rw [List.map_cons, List.cons.injEq] at sound
    obtain ⟨rfl, sound⟩ := sound
    obtain ⟨c, slice, cut, unread, scanned⟩ := slice_of_next read
    rw [slices, read] at relaid
    obtain ⟨spacing, behind, laid, -, further, -, joined⟩ := relaid.first
    refine ⟨token, more, after, c, slice, spacing ++ behind, read, sound, ?_, ?_, scanned, ?_⟩
    · exact leant.unread.symm.trans unread
    · rw [laid, cut]
    · intro leans
      rw [joined leans]
      exact further

/-- What is laid out begins as the text does that a sigil leaned on. -/
theorem beginAlike (leant : scanner.Leant) (sound : scanner.remaining = tokens.map .ok)
    (laid : Relaid (scanner.slices tokens) text) : BeginAlike scanner.reader.unread text := by
  obtain ⟨token, more, after, c, slice, behind, read, further, unread, rfl, scanned, joined⟩ :=
    leant.relaid sound laid
  refine ⟨by rw [unread]; rfl, fun dollar => ?_⟩
  cases slice with
  | cons d slice => rw [unread]; rfl
  | nil =>
    -- A sigil that is a slice of its own leans on the next one in turn.
    rw [unread] at dollar
    obtain rfl := Option.some.inj dollar
    have leans := Reader.leans_of_dollar (leant.unread.trans unread) scanned
    have again := leant_of_next read leans
    obtain ⟨_, _, _, _, _, _, -, -, unread', rfl, -⟩ := again.relaid further (joined leans)
    rw [unread, unread']
    rfl

end Leant

/-! ## Any number of calls -/

variable {other : Scanner} {spacing : List Char}

/-- What a scanner is about to read is read again from its slices, laid out with other spacing. -/
theorem remaining_relaid (running : scanner.finished = false) (running' : other.finished = false)
    (context : other.context = scanner.context) (sound : scanner.remaining = tokens.map .ok)
    (isSpacing : Spacing spacing) (laid : Relaid (scanner.slices tokens) text)
    (unread' : other.reader.unread = spacing ++ text) :
    ∃ tokens' : List Token, other.remaining = tokens'.map .ok ∧
      tokens'.map Token.content = tokens.map Token.content := by
  induction tokens generalizing scanner other spacing text with
  | nil =>
    cases laid
    have skipped := Reader.crosses_gap unread' (isSpacing.isGap _ _) fun _ => rfl
    have atEnd := List.append_cancel_left (skipped.unread.symm.trans unread')
    refine ⟨[], ?_, rfl⟩
    rcases read : other.next with ⟨_ | item, after⟩
    · exact remaining_of_none read
    · obtain ⟨-, c, rest, -, more, -⟩ := scan_of_next read
      rw [atEnd] at more
      contradiction
  | cons token tokens ih =>
    obtain ⟨after, read, sound⟩ := next_of_remaining sound
    rw [slices, read] at laid
    obtain ⟨between, behind, rfl, separates, further, parts, joined⟩ := laid.first
    have alike (leans : token.kind.leans = true) :
        BeginAlike after.reader.unread (between ++ behind) := by
      rw [joined leans]
      exact (leant_of_next read leans).beginAlike sound further
    obtain ⟨token', after', read', same, going, context', unread''⟩ :=
      next_again read running' context isSpacing unread' parts alike
    obtain ⟨tokens', sound', same'⟩ :=
      ih (next_some read).2.2 going context' sound separates further unread''
    refine ⟨token' :: tokens', ?_, ?_⟩
    · rw [remaining_of_some read', sound', List.map_cons]
    · rw [List.map_cons, List.map_cons, same, same']

end Scanner

/-! ## Whole texts -/

variable {text lead body : List Char} {tokens : List Token}

theorem Spacing.head_ne (isSpacing : Spacing lead) : lead.head? ≠ some '\ufeff' := by
  cases isSpacing with
  | nil => nofun
  | space blank =>
    rintro mark
    obtain rfl := Option.some.inj mark
    contradiction
  | comment => exact fun mark => absurd (Option.some.inj mark) (by decide)

/-- A text that is laid out of slices opens with no byte order mark. -/
theorem Relaid.head_ne (sound : tokenize text = .ok tokens)
    (laid : Relaid ((Scanner.start text).slices tokens) body) : body.head? ≠ some '\ufeff' := by
  have remaining := scan_of_tokenize sound
  rw [scan_eq_remaining] at remaining
  cases tokens with
  | nil =>
    cases laid
    nofun
  | cons token tokens =>
    obtain ⟨after, read, -⟩ := Scanner.next_of_remaining remaining
    obtain ⟨c, more, cut, unread, scanned⟩ := Scanner.slice_of_next read
    obtain ⟨spacing, behind, rfl, -⟩ := laid.first
    rw [cut]
    exact fun mark => Reader.ne_mark_of_scan unread scanned (Option.some.inj mark)

/-- Where a text scans without fault, every text that is made of its slices, with any spacing in
front and any that keeps tokens apart between them, scans without fault to the same tokens. -/
theorem tokenize_relaid (sound : tokenize text = .ok tokens) (leads : Spacing lead)
    (laid : Relaid ((Scanner.start text).slices tokens) body) :
    ∃ tokens' : List Token, tokenize (lead ++ body) = .ok tokens' ∧
      tokens'.map Token.content = tokens.map Token.content := by
  have remaining := scan_of_tokenize sound
  rw [scan_eq_remaining] at remaining
  have noMark : (lead ++ body).head? ≠ some '\ufeff' := by
    rw [List.head?_append]
    cases first : lead.head? with
    | none => exact laid.head_ne sound
    | some c =>
      rw [Option.some_or, ← first]
      exact leads.head_ne
  have unread : (Scanner.start (lead ++ body)).reader.unread = lead ++ body :=
    Reader.unread_start_of_no_mark noMark
  have context : (Scanner.start (lead ++ body)).context = (Scanner.start text).context := rfl
  obtain ⟨tokens', remaining', same⟩ :=
    Scanner.remaining_relaid rfl rfl context remaining leads laid unread
  rw [← scan_eq_remaining] at remaining'
  exact ⟨tokens', tokenize_of_scan remaining', same⟩

/-- Documentation gives way to a comment, and the sigils stay where they lean. -/
theorem tokenize_relaid_sigils : ∃ (tokens : List Token) (body : List Char),
    tokenize "$$x=\n=pod\n\n=cut\n%$h%2".toList = .ok tokens ∧ Spacing "#\n".toList ∧
      Relaid ((Scanner.start "$$x=\n=pod\n\n=cut\n%$h%2".toList).slices tokens) body ∧
      "#\n".toList ++ body = "#\n$$x\n#\n= %$h\t% 2".toList ∧
      ∃ tokens' : List Token, tokenize ("#\n".toList ++ body) = .ok tokens' ∧
        tokens'.map Token.content = tokens.map Token.content := by
  have sound : tokenize "$$x=\n=pod\n\n=cut\n%$h%2".toList = .ok _ := rfl
  have leads : Spacing "#\n".toList := .comment List.not_mem_nil .nil
  have blank : Separates [' '] := ⟨.space rfl .nil, rfl⟩
  have tab : Separates ['\t'] := ⟨.space rfl .nil, rfl⟩
  have comment : Separates ['\n', '#', '\n'] :=
    ⟨.space rfl (.comment List.not_mem_nil .nil), rfl⟩
  have laid : Relaid
      [(⟨.derefSigil .scalar, "$", ⟨1, 1⟩⟩, ['$']), (⟨.var .scalar, "$x", ⟨1, 2⟩⟩, ['$', 'x']),
        (⟨.operator, "=", ⟨1, 4⟩⟩, ['=']), (⟨.derefSigil .hash, "%", ⟨5, 1⟩⟩, ['%']),
        (⟨.var .scalar, "$h", ⟨5, 2⟩⟩, ['$', 'h']), (⟨.operator, "%", ⟨5, 4⟩⟩, ['%']),
        (⟨.number, "2", ⟨5, 5⟩⟩, ['2'])] _ :=
    .joined rfl (.apart rfl comment (.apart rfl blank (.joined rfl (.apart rfl tab
      (.apart rfl blank (.last _ _))))))
  exact ⟨_, _, sound, leads, laid, rfl, tokenize_relaid sound leads laid⟩

end SigilScript
