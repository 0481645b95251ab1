import SigilScript.Proofs.Scan.Exchange

/-! # What gaps are made of

What stands between two tokens is spaces, comments and documentation. A comment goes on to the end
of its line, and documentation, which opens a line, through the first of its lines that opens with
`=cut`; without one it goes on to the end of the text. A gap that ends inside a text is the same
before another end of the text, as far as no letter is missing that would open documentation.
-/

namespace SigilScript

/-- The lines of documentation, in front of what stands behind them. -/
inductive Documentation : List Char → List Char → Prop where
  /-- The line that opens with `=cut` belongs to it, with its newline. -/
  | closed {line : List Char} (rest : List Char) (single : '\n' ∉ line)
    (closes : closesDocumentation line = true) : Documentation (line ++ ['\n']) rest
  | ended {line : List Char} (single : '\n' ∉ line) : Documentation line []
  | line {line lines rest : List Char} (single : '\n' ∉ line)
    (goesOn : closesDocumentation line = false) (further : Documentation lines rest) :
    Documentation (line ++ '\n' :: lines) rest

/-- A gap, in front of what stands behind it; `atLineStart` says that a line begins with the gap. -/
inductive IsGap : Bool → List Char → List Char → Prop where
  | nil (atLineStart : Bool) (rest : List Char) : IsGap atLineStart [] rest
  | space {atLineStart : Bool} {c : Char} {gap rest : List Char} (blank : isGapSpace c = true)
    (further : IsGap (c = '\n') gap rest) : IsGap atLineStart (c :: gap) rest
  | comment {atLineStart : Bool} {body gap rest : List Char} (single : '\n' ∉ body)
    (ends : ∀ c ∈ (gap ++ rest).head?, c = '\n') (further : IsGap false gap rest) :
    IsGap atLineStart ('#' :: body ++ gap) rest
  | documentation {block gap rest : List Char} (opens : opensDocumentation block = true)
    (lines : Documentation block (gap ++ rest)) (further : IsGap true gap rest) :
    IsGap true (block ++ gap) rest

/-! ## Lines -/

theorem isPrefixOf_line {word line : List Char} (single : '\n' ∉ word) (rest : List Char) :
    word.isPrefixOf (line ++ '\n' :: rest) = word.isPrefixOf line := by
  induction word generalizing line with
  | nil => rw [List.isPrefixOf_nil_left, List.isPrefixOf_nil_left]
  | cons c word ih =>
    obtain ⟨noNewline, single⟩ := not_or.mp (mt List.mem_cons.mpr single)
    cases line with
    | nil =>
      have different : (c == '\n') = false := beq_eq_false_iff_ne.mpr (Ne.symm noNewline)
      simp only [List.nil_append, List.isPrefixOf, different, Bool.false_and]
    | cons d line => simp only [List.cons_append, List.isPrefixOf, ih single]

/-- Whether documentation closes is decided by the line. -/
theorem closesDocumentation_line (line rest : List Char) :
    closesDocumentation (line ++ '\n' :: rest) = closesDocumentation line :=
  isPrefixOf_line (by decide) rest

/-! ## How long a gap is -/

section Steps

variable {c : Char} (atLineStart : Bool) (text : List Char)

theorem Gap.length_space (blank : isGapSpace c = true) :
    Gap.length .spaces atLineStart (c :: text) = Gap.length .spaces (c = '\n') text + 1 := by
  rw [Gap.length, if_pos blank]

theorem Gap.length_hash :
    Gap.length .spaces atLineStart ('#' :: text) = Gap.length .comment false text + 1 := by
  rw [Gap.length, if_neg (by decide), if_pos rfl]

theorem Gap.length_opening {text : List Char} (opens : opensDocumentation ('=' :: text) = true) :
    Gap.length .spaces true ('=' :: text) =
      Gap.length (.documentation (closesDocumentation ('=' :: text))) false text + 1 := by
  rw [Gap.length, if_neg (by decide), if_neg (by decide),
    if_pos (Bool.and_eq_true_iff.mpr ⟨rfl, opens⟩)]

theorem Gap.length_commentEnd :
    Gap.length .comment atLineStart ('\n' :: text) = Gap.length .spaces true text + 1 := by
  rw [Gap.length, if_pos rfl]

theorem Gap.length_commented (noNewline : c ≠ '\n') :
    Gap.length .comment atLineStart (c :: text) = Gap.length .comment false text + 1 := by
  rw [Gap.length, if_neg noNewline]

theorem Gap.length_closed :
    Gap.length (.documentation true) atLineStart ('\n' :: text) =
      Gap.length .spaces true text + 1 := by
  rw [Gap.length, if_pos rfl, if_pos rfl]

theorem Gap.length_goesOn :
    Gap.length (.documentation false) atLineStart ('\n' :: text) =
      Gap.length (.documentation (closesDocumentation text)) false text + 1 := by
  rw [Gap.length, if_pos rfl, if_neg Bool.false_ne_true]

theorem Gap.length_documented {closing : Bool} (noNewline : c ≠ '\n') :
    Gap.length (.documentation closing) atLineStart (c :: text) =
      Gap.length (.documentation closing) false text + 1 := by
  rw [Gap.length, if_neg noNewline]

end Steps

/-- What opens documentation is an equals sign and a letter, and a letter is no newline. -/
theorem opensDocumentation_cons {c : Char} {text block : List Char}
    (opens : opensDocumentation (c :: text) = true)
    (begins : ∀ d ∈ text.head?, d ≠ '\n' → d ∈ block.head?) :
    c = '=' ∧ opensDocumentation ('=' :: block) = true := by
  rcases text with _ | ⟨d, text⟩
  · simp [opensDocumentation] at opens
  · by_cases equals : c = '='
    · subst equals
      have letter : d.isAlpha = true := opens
      have noNewline : d ≠ '\n' := by
        rintro rfl
        contradiction
      obtain ⟨block, rfl⟩ := List.head?_eq_some_iff.mp (begins d rfl noNewline)
      exact ⟨rfl, letter⟩
    · simp [opensDocumentation, equals] at opens

/-- What a number of characters at the front of a text is, to what skips them. Between tokens it is
a gap; within a comment, the end of the comment and a gap behind it; within documentation, what
completes the line that began before, further lines, and a gap behind them. -/
def Gap.Measures : Gap → Bool → List Char → Nat → Prop
  | .spaces, atLineStart, text, length => ∃ gap rest, text = gap ++ rest ∧ gap.length = length ∧
    IsGap atLineStart gap rest
  | .comment, _, text, length => ∃ body gap rest, text = body ++ gap ++ rest ∧
    (body ++ gap).length = length ∧ '\n' ∉ body ∧ (∀ c ∈ (gap ++ rest).head?, c = '\n') ∧
    IsGap false gap rest
  | .documentation closing, _, text, length => ∃ block gap rest, text = block ++ gap ++ rest ∧
    (block ++ gap).length = length ∧ (∀ c ∈ text.head?, c ≠ '\n' → c ∈ block.head?) ∧
    (∀ front, '\n' ∉ front → closesDocumentation (front ++ text) = closing →
      Documentation (front ++ block) (gap ++ rest)) ∧
    IsGap true gap rest

theorem Gap.measures_nil (gap : Gap) (atLineStart : Bool) : gap.Measures atLineStart [] 0 := by
  cases gap with
  | spaces => exact ⟨[], [], rfl, rfl, .nil _ _⟩
  | comment => exact ⟨[], [], [], rfl, rfl, List.not_mem_nil, by simp, .nil _ _⟩
  | documentation closing =>
    refine ⟨[], [], [], rfl, rfl, by simp, fun front single _ => ?_, .nil _ _⟩
    rw [List.append_nil]
    exact .ended single

/-- How long a gap is, by the character that comes next. -/
theorem Gap.measures_length (gap : Gap) (atLineStart : Bool) (text : List Char) :
    gap.Measures atLineStart text (gap.length atLineStart text) := by
  fun_induction Gap.length gap atLineStart text with
  | case1 gap atLineStart => exact gap.measures_nil atLineStart
  | case2 atLineStart c text blank ih =>
    obtain ⟨gap, rest, rfl, long, isGap⟩ := ih
    exact ⟨c :: gap, rest, rfl, congrArg Nat.succ long, .space blank isGap⟩
  | case3 atLineStart text _ ih =>
    obtain ⟨body, gap, rest, rfl, long, single, ends, isGap⟩ := ih
    exact ⟨'#' :: body ++ gap, rest, rfl, congrArg Nat.succ long, .comment single ends isGap⟩
  | case4 atLineStart c text _ _ opens ih =>
    obtain ⟨lineStart, opens⟩ := Bool.and_eq_true_iff.mp opens
    obtain ⟨block, gap, rest, same, long, begins, lines, isGap⟩ := ih
    obtain ⟨rfl, opening⟩ := opensDocumentation_cons opens begins
    have further := lines ['='] (by decide) rfl
    subst same
    refine ⟨'=' :: block ++ gap, rest, rfl, congrArg Nat.succ long, ?_⟩
    rw [lineStart]
    exact .documentation opening further isGap
  | case5 atLineStart c text => exact ⟨[], c :: text, rfl, rfl, .nil _ _⟩
  | case6 atLineStart text ih =>
    obtain ⟨gap, rest, rfl, long, isGap⟩ := ih
    refine ⟨[], '\n' :: gap, rest, rfl, congrArg Nat.succ long, List.not_mem_nil, by simp, ?_⟩
    exact .space rfl isGap
  | case7 atLineStart c text noNewline ih =>
    obtain ⟨body, gap, rest, rfl, long, single, ends, isGap⟩ := ih
    refine ⟨c :: body, gap, rest, rfl, congrArg Nat.succ long, ?_, ends, isGap⟩
    simp [single, Ne.symm noNewline]
  | case8 atLineStart text ih =>
    obtain ⟨gap, rest, rfl, long, isGap⟩ := ih
    refine ⟨['\n'], gap, rest, rfl, congrArg Nat.succ long, by simp, fun front single closes => ?_,
      isGap⟩
    rw [closesDocumentation_line] at closes
    exact .closed _ single closes
  | case9 closing atLineStart text goesOn ih =>
    obtain ⟨block, gap, rest, rfl, long, -, lines, isGap⟩ := ih
    refine ⟨'\n' :: block, gap, rest, rfl, congrArg Nat.succ long, by simp,
      fun front single whole => ?_, isGap⟩
    rw [closesDocumentation_line] at whole
    refine .line single (whole.trans (Bool.eq_false_iff.mpr goesOn)) ?_
    exact lines [] List.not_mem_nil rfl
  | case10 closing atLineStart c text noNewline ih =>
    obtain ⟨block, gap, rest, rfl, long, -, lines, isGap⟩ := ih
    refine ⟨c :: block, gap, rest, rfl, congrArg Nat.succ long, by simp,
      fun front single whole => ?_, isGap⟩
    have longer : '\n' ∉ front ++ [c] := by simp [single, Ne.symm noNewline]
    rw [List.append_cons] at whole ⊢
    exact lines (front ++ [c]) longer whole

/-- What is skipped in front of a token is a gap. -/
theorem Reader.crosses_skipGap (reader : Reader) :
    ∃ gap, reader.Crosses gap reader.skipGap ∧
      IsGap (reader.position.column = 1) gap reader.skipGap.unread := by
  obtain ⟨gap, rest, same, long, isGap⟩ :=
    Gap.measures_length .spaces (reader.position.column = 1) reader.unread
  have skipped := crosses_skip same
  rw [long] at skipped
  have behind :
      (reader.skip (Gap.length .spaces (reader.position.column = 1) reader.unread)).unread = rest :=
    List.append_cancel_left (skipped.unread.symm.trans same)
  refine ⟨gap, ?_, ?_⟩
  · simp only [skipGap]
    split
    · exact skipped.look 2
    · exact skipped.look 1
  · simp only [skipGap]
    split
    · exact behind ▸ isGap
    · exact behind ▸ isGap

/-! ## What is skipped of a gap -/

/-- A comment goes on to the end of its line. -/
theorem Gap.length_comment {body tail : List Char} (single : '\n' ∉ body)
    (ends : ∀ c ∈ tail.head?, c = '\n') (atLineStart : Bool) :
    Gap.length .comment atLineStart (body ++ tail) =
      body.length + Gap.length .spaces false tail := by
  induction body generalizing atLineStart with
  | nil =>
    cases tail with
    | nil => rfl
    | cons c tail =>
      obtain rfl := ends c rfl
      rw [List.nil_append, List.length_nil, Nat.zero_add]
      rfl
  | cons c body ih =>
    obtain ⟨noNewline, single⟩ := not_or.mp (mt List.mem_cons.mpr single)
    rw [List.cons_append, length_commented _ _ (Ne.symm noNewline), ih single, List.length_cons]
    omega

/-- A line of documentation is passed over up to its end. -/
theorem Gap.length_line {closing : Bool} {line : List Char} (single : '\n' ∉ line)
    (tail : List Char) (atLineStart : Bool) :
    Gap.length (.documentation closing) atLineStart (line ++ tail) =
      line.length + Gap.length (.documentation closing) false tail := by
  induction line generalizing atLineStart with
  | nil =>
    rw [List.nil_append, List.length_nil, Nat.zero_add]
    cases tail <;> rfl
  | cons c line ih =>
    obtain ⟨noNewline, single⟩ := not_or.mp (mt List.mem_cons.mpr single)
    rw [List.cons_append, length_documented _ _ (Ne.symm noNewline), ih single, List.length_cons]
    omega

theorem Documentation.length {block rest : List Char} (lines : Documentation block rest)
    (atLineStart : Bool) :
    Gap.length (.documentation (closesDocumentation (block ++ rest))) atLineStart (block ++ rest) =
      block.length + Gap.length .spaces true rest := by
  induction lines generalizing atLineStart with
  | @closed line rest single closes =>
    rw [List.append_assoc, List.singleton_append, Gap.length_line single, closesDocumentation_line,
      closes, List.length_append, List.length_singleton, Gap.length_closed]
    omega
  | ended single => rw [Gap.length_line single]; rfl
  | @line line lines rest single goesOn _ ih =>
    rw [List.append_assoc, List.cons_append, Gap.length_line single, closesDocumentation_line,
      goesOn, List.length_append, List.length_cons, Gap.length_goesOn, ih]
    omega

theorem opensDocumentation_of_ne {c : Char} (noEquals : c ≠ '=') (text : List Char) :
    opensDocumentation (c :: text) = false := by
  rw [opensDocumentation]
  rintro _ _ same
  exact noEquals (List.cons.inj same).1

theorem opensDocumentation_equals (text : List Char) :
    opensDocumentation ('=' :: text) = text.head?.any Char.isAlpha := by
  cases text <;> rfl

/-- What neither is a space nor opens a comment or documentation is no part of a gap. -/
theorem Gap.length_token {c : Char} {more : List Char} (solid : isGapSpace c = false)
    (noComment : c ≠ '#') (undocumented : opensDocumentation (c :: more) = false)
    (atLineStart : Bool) : Gap.length .spaces atLineStart (c :: more) = 0 := by
  rw [Gap.length, if_neg (Bool.eq_false_iff.mp solid), if_neg noComment, undocumented,
    Bool.and_false, if_neg Bool.false_ne_true]

/-- A gap goes on as far as spaces and comments do. -/
theorem Gap.drop_length (gap : Gap) (atLineStart : Bool) (text : List Char) {c : Char}
    {more : List Char} (behind : text.drop (gap.length atLineStart text) = c :: more) :
    isGapSpace c = false ∧ c ≠ '#' := by
  fun_induction Gap.length gap atLineStart text with
  | case1 => contradiction
  | case2 _ _ _ _ ih => exact ih behind
  | case3 _ _ _ ih => exact ih behind
  | case4 _ _ _ _ _ _ ih => exact ih behind
  | case5 _ d _ solid noComment =>
    obtain ⟨rfl, -⟩ := List.cons.inj behind
    exact ⟨Bool.eq_false_iff.mpr solid, noComment⟩
  | case6 _ _ ih => exact ih behind
  | case7 _ _ _ _ ih => exact ih behind
  | case8 _ _ ih => exact ih behind
  | case9 _ _ _ _ ih => exact ih behind
  | case10 _ _ _ _ _ ih => exact ih behind

/-- A gap in front of what is no part of one is skipped whole. -/
theorem IsGap.length {atLineStart : Bool} {gap rest : List Char}
    (isGap : IsGap atLineStart gap rest)
    (ends : ∀ atLineStart, Gap.length .spaces atLineStart rest = 0) :
    Gap.length .spaces atLineStart (gap ++ rest) = gap.length := by
  induction isGap with
  | nil => exact ends _
  | space blank _ ih =>
    rw [List.cons_append, Gap.length_space _ _ blank, ih ends, List.length_cons]
  | @comment atLineStart body gap rest single follows _ ih =>
    rw [List.append_assoc, List.cons_append, Gap.length_hash, Gap.length_comment single follows,
      ih ends, List.length_append, List.length_cons]
    omega
  | @documentation block gap rest opens lines _ ih =>
    have inner := lines.length false
    rw [ih ends] at inner
    obtain ⟨c, block, rfl⟩ : ∃ c more, block = c :: more := by
      cases block with
      | nil => contradiction
      | cons c block => exact ⟨c, block, rfl⟩
    have begins (d) (next : d ∈ block.head?) : d ∈ (block ++ (gap ++ rest)).head? := by
      rw [List.head?_append, Option.mem_def.mp next]
      rfl
    obtain ⟨rfl, opened⟩ :=
      opensDocumentation_cons opens fun d next _ => begins d next
    rw [List.cons_append, Gap.length_documented _ _ (by decide)] at inner
    rw [List.append_assoc, List.cons_append, Gap.length_opening opened, inner, List.length_append]

/-- Behind a gap stands neither a space nor a comment. -/
theorem Reader.solid_skipGap {reader : Reader} {c : Char} {more : List Char}
    (unread : reader.skipGap.unread = c :: more) : isGapSpace c = false ∧ c ≠ '#' := by
  have behind : reader.unread.drop
      (Gap.length .spaces (reader.position.column = 1) reader.unread) = c :: more := by
    rw [← unread]
    simp only [skipGap]
    split <;> rfl
  exact Gap.drop_length .spaces _ _ behind

/-- Where a gap stands in front of what is no part of one, a reader skips the gap. -/
theorem Reader.crosses_gap {reader : Reader} {gap rest : List Char}
    (unread : reader.unread = gap ++ rest)
    (isGap : IsGap (reader.position.column = 1) gap rest)
    (ends : ∀ atLineStart, Gap.length .spaces atLineStart rest = 0) :
    reader.Crosses gap reader.skipGap := by
  have skipped := crosses_skip unread
  rw [← isGap.length ends, ← unread] at skipped
  simp only [skipGap]
  split
  · exact skipped.look 2
  · exact skipped.look 1

/-- A character that is neither a space nor opens a comment or documentation ends a gap. -/
theorem Reader.skipGap_solid {reader : Reader} {c : Char} {gap rest : List Char}
    (solid : isGapSpace c = false) (noComment : c ≠ '#') (noEquals : c ≠ '=')
    (isGap : IsGap (reader.position.column = 1) gap (c :: rest))
    (unread : reader.unread = gap ++ c :: rest) :
    reader.skipGap.unread = c :: rest ∧ reader.skipGap.position = reader.position.after gap := by
  have skipped := crosses_gap unread isGap
    (Gap.length_token solid noComment (opensDocumentation_of_ne noEquals rest))
  exact ⟨List.append_cancel_left (skipped.unread.symm.trans unread), skipped.position⟩

/-! ## Gaps before other ends -/

variable {front rest : List Char}

/-- Documentation that ends inside a text ends behind a line. -/
theorem newline_of_documentation {closing atLineStart : Bool}
    (inside : (Gap.documentation closing).length atLineStart (front ++ rest) < front.length) :
    '\n' ∈ front := by
  induction front generalizing atLineStart with
  | nil => exact absurd inside (Nat.not_lt_zero _)
  | cons c front ih =>
    by_cases newline : c = '\n'
    · exact newline ▸ List.mem_cons_self
    · rw [List.cons_append, Gap.length_documented _ _ newline, List.length_cons] at inside
      exact List.mem_cons_of_mem _ (ih (Nat.lt_of_succ_lt_succ inside))

/-- Whether a line closes documentation shows before its end. -/
theorem closesDocumentation_exchange (newline : '\n' ∈ front) (rest rest' : List Char) :
    closesDocumentation (front ++ rest') = closesDocumentation (front ++ rest) := by
  obtain ⟨line, more, rfl⟩ := List.append_of_mem newline
  rw [List.append_assoc, List.append_assoc, List.cons_append, List.cons_append,
    closesDocumentation_line, closesDocumentation_line]

/-- Whether documentation opens shows by the letter behind the equals sign, if there is one. -/
theorem opensDocumentation_exchange {c : Char} {rest' : List Char}
    (seen : c = '=' → front ≠ [] ∨ Parts rest ∧ Parts rest') :
    opensDocumentation (c :: (front ++ rest')) = opensDocumentation (c :: (front ++ rest)) := by
  by_cases equals : c = '='
  · subst equals
    rw [opensDocumentation_equals, opensDocumentation_equals]
    rcases front with _ | ⟨d, front⟩
    · obtain ⟨parts, parts'⟩ := (seen rfl).resolve_left (absurd rfl)
      exact (parts'.any (by decide)).trans (parts.any (by decide)).symm
    · rfl
  · rw [opensDocumentation_of_ne equals, opensDocumentation_of_ne equals]

/-- A gap that ends inside a text is the same before any other end, where behind an equals sign that
opens a line the letter that would open documentation was looked at, or cannot stand. -/
theorem Gap.length_exchange {gap : Gap} {atLineStart : Bool} (position : Position)
    (rest' : List Char)
    (line : gap = .spaces → atLineStart = true → position.column = 1)
    (inside : gap.length atLineStart (front ++ rest) < front.length)
    (seen : (position.after (front.take (gap.length atLineStart (front ++ rest)))).column = 1 →
      front[gap.length atLineStart (front ++ rest)]? = some '=' →
        gap.length atLineStart (front ++ rest) + 1 < front.length ∨ Parts rest ∧ Parts rest') :
    gap.length atLineStart (front ++ rest') = gap.length atLineStart (front ++ rest) := by
  induction front generalizing gap atLineStart position with
  | nil => exact absurd inside (Nat.not_lt_zero _)
  | cons c front ih =>
    -- Behind the first character the same holds, with another kind of gap.
    have further (next : Gap) (nextLine : Bool)
        (line : next = .spaces → nextLine = true → (position.next c).column = 1)
        (step : gap.length atLineStart (c :: (front ++ rest)) =
          next.length nextLine (front ++ rest) + 1) :
        next.length nextLine (front ++ rest') = next.length nextLine (front ++ rest) := by
      rw [List.cons_append, step] at inside seen
      exact ih (position.next c) line (Nat.lt_of_succ_lt_succ inside) fun start equals =>
        (seen start equals).imp_left Nat.lt_of_succ_lt_succ
    have lineBehind {nextLine : Bool} (newline : nextLine = true → c = '\n') :
        nextLine = true → (position.next c).column = 1 := by
      intro nextLine
      rw [newline nextLine]
      rfl
    rw [List.cons_append, List.cons_append]
    cases gap with
    | spaces =>
      by_cases blank : isGapSpace c = true
      · rw [length_space _ _ blank, length_space _ _ blank,
          further _ _ (fun _ => lineBehind of_decide_eq_true) (length_space _ _ blank)]
      by_cases hash : c = '#'
      · subst hash
        rw [length_hash, length_hash, further .comment _ (absurd · (by simp)) (length_hash ..)]
      by_cases opens : (atLineStart && opensDocumentation (c :: (front ++ rest))) = true
      · obtain ⟨rfl, opened⟩ := Bool.and_eq_true_iff.mp opens
        obtain ⟨rfl, -⟩ := opensDocumentation_cons opened fun _ next _ => next
        have within := further (.documentation _) _ (absurd · (by simp)) (length_opening opened)
        rw [List.cons_append, length_opening opened] at inside
        have single := newline_of_documentation (Nat.lt_of_succ_lt_succ inside)
        have same : opensDocumentation ('=' :: (front ++ rest')) =
            opensDocumentation ('=' :: (front ++ rest)) :=
          opensDocumentation_exchange fun _ => .inl (List.ne_nil_of_mem single)
        have closes : closesDocumentation ('=' :: (front ++ rest')) =
            closesDocumentation ('=' :: (front ++ rest)) :=
          closesDocumentation_exchange (List.mem_cons_of_mem _ single) rest rest'
        rw [length_opening opened, length_opening (same.trans opened), closes, within]
      · have nothing : Gap.length .spaces atLineStart (c :: (front ++ rest)) = 0 := by
          rw [Gap.length, if_neg blank, if_neg hash, if_neg opens]
        rw [List.cons_append, nothing] at seen
        have same : (atLineStart && opensDocumentation (c :: (front ++ rest'))) =
            (atLineStart && opensDocumentation (c :: (front ++ rest))) := by
          cases start : atLineStart with
          | false => rfl
          | true =>
            refine congrArg _ (opensDocumentation_exchange fun equals => ?_)
            have two := seen (line rfl start) (congrArg some equals)
            exact two.imp_left fun two =>
              List.ne_nil_of_length_pos (Nat.lt_of_succ_lt_succ two)
        rw [← same] at opens
        rw [nothing, Gap.length, if_neg blank, if_neg hash, if_neg opens]
    | comment =>
      by_cases newline : c = '\n'
      · subst newline
        rw [length_commentEnd, length_commentEnd,
          further _ _ (fun _ => lineBehind fun _ => rfl) (length_commentEnd ..)]
      · rw [length_commented _ _ newline, length_commented _ _ newline,
          further .comment _ (absurd · (by simp)) (length_commented _ _ newline)]
    | documentation closing =>
      by_cases newline : c = '\n'
      · subst newline
        cases closing with
        | true =>
          rw [length_closed, length_closed,
            further _ _ (fun _ => lineBehind fun _ => rfl) (length_closed ..)]
        | false =>
          rw [List.cons_append, length_goesOn] at inside
          have single := newline_of_documentation (Nat.lt_of_succ_lt_succ inside)
          rw [length_goesOn, length_goesOn, closesDocumentation_exchange single rest rest',
            further (.documentation _) _ (absurd · (by simp)) (length_goesOn ..)]
      · rw [length_documented _ _ newline, length_documented _ _ newline,
          further (.documentation _) _ (absurd · (by simp)) (length_documented _ _ newline)]

end SigilScript
