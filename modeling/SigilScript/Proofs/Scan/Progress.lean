import SigilScript.Proofs.Scan.Cases
import SigilScript.Proofs.Scan.Crossing

/-! # Scanning makes progress

Whatever a reader reads, it passes over a text and stands behind it. A token or a fault takes one
character at least, so a scan is over after as many items as there are characters, and calls
beyond that change nothing.
-/

namespace SigilScript

namespace Reader

/-- One reader stands behind another, at the place that the text between them leads to. -/
def Passes (reader after : Reader) : Prop :=
  ∃ text : List Char, reader.unread = text ++ after.unread ∧
    after.position = reader.position.after text

/-- One reader stands behind another, with a text between them that is not empty. -/
def Advances (reader after : Reader) : Prop :=
  ∃ (c : Char) (text : List Char), reader.unread = c :: text ++ after.unread ∧
    after.position = reader.position.after (c :: text)

variable {reader between after : Reader}

theorem Passes.refl (reader : Reader) : reader.Passes reader := ⟨[], rfl, rfl⟩

theorem Passes.trans (first : reader.Passes between) (second : between.Passes after) :
    reader.Passes after := by
  obtain ⟨text, unread, position⟩ := first
  obtain ⟨text', unread', position'⟩ := second
  refine ⟨text ++ text', ?_, ?_⟩
  · rw [unread, unread', List.append_assoc]
  · rw [position', position, Position.after_append]

theorem Crosses.passes {text : List Char} (crosses : reader.Crosses text after) :
    reader.Passes after :=
  ⟨text, crosses.unread, crosses.position⟩

theorem Advances.passes (advances : reader.Advances after) : reader.Passes after := by
  obtain ⟨c, text, unread, position⟩ := advances
  exact ⟨c :: text, unread, position⟩

theorem Advances.trans (first : reader.Advances between) (second : between.Passes after) :
    reader.Advances after := by
  obtain ⟨c, text, unread, position⟩ := first
  obtain ⟨text', unread', position'⟩ := second
  refine ⟨c, text ++ text', ?_, ?_⟩
  · rw [unread, unread', ← List.append_assoc]
    rfl
  · rw [position', position, ← Position.after_append]
    rfl

theorem Passes.advances (first : reader.Passes between) (second : between.Advances after) :
    reader.Advances after := by
  obtain ⟨text, unread, position⟩ := first
  obtain ⟨c, text', unread', position'⟩ := second
  cases text with
  | nil =>
    rw [List.nil_append] at unread
    rw [position] at position'
    exact ⟨c, text', unread.trans unread', position'⟩
  | cons d text =>
    refine ⟨d, text ++ (c :: text'), ?_, ?_⟩
    · rw [unread, unread', ← List.append_assoc]
      rfl
    · rw [position', position, ← Position.after_append]
      rfl

theorem Advances.length_lt (advances : reader.Advances after) :
    after.unread.length < reader.unread.length := by
  obtain ⟨c, text, unread, -⟩ := advances
  rw [unread]
  simp only [List.cons_append, List.length_cons, List.length_append]
  omega

theorem Passes.suffix (passes : reader.Passes after) : after.unread <:+ reader.unread := by
  obtain ⟨text, unread, -⟩ := passes
  exact ⟨text, unread.symm⟩

/-! ## Steps of reading -/

theorem passes_look (count : Nat) (reader : Reader) : reader.Passes (reader.look count) :=
  (crosses_look count reader).passes

theorem passes_exhaust (reader : Reader) : reader.Passes reader.exhaust :=
  (Crosses.refl reader).exhaust.passes

theorem passes_skip (count : Nat) (reader : Reader) : reader.Passes (reader.skip count) :=
  (crosses_take count reader).passes

theorem advances_skip {count : Nat} (positive : 0 < count) {c : Char} {rest : List Char}
    (next : reader.unread = c :: rest) : reader.Advances (reader.skip count) := by
  obtain ⟨count, rfl⟩ : ∃ fewer, count = fewer + 1 := ⟨count - 1, by omega⟩
  refine ⟨c, rest.take count, ?_, ?_⟩
  · simp only [skip, next, List.drop_succ_cons, List.cons_append, List.take_append_drop]
  · simp only [skip, next, List.take_succ_cons]

theorem passes_run (accepts : Char → Bool) (reader : Reader) :
    reader.Passes (reader.run accepts).2 :=
  (crosses_run accepts reader).passes

theorem advances_run {accepts : Char → Bool} {c : Char} {rest : List Char}
    (next : reader.unread = c :: rest) (accepted : accepts c = true) :
    reader.Advances (reader.run accepts).2 := by
  refine (advances_skip ?_ next).trans (passes_look 1 _)
  rw [next, List.takeWhile_cons_of_pos accepted]
  exact Nat.succ_pos _

theorem passes_name (reader : Reader) : reader.Passes reader.name.2 :=
  (crosses_name reader).passes

theorem passes_versionParts (reader : Reader) : reader.Passes reader.versionParts.2 :=
  (crosses_versionParts reader).passes

theorem passes_skipGap (reader : Reader) : reader.Passes reader.skipGap := by
  simp only [skipGap]
  split
  · exact (passes_skip _ reader).trans (passes_look _ _)
  · exact (passes_skip _ reader).trans (passes_look _ _)

theorem passes_fraction (reader : Reader) : reader.Passes reader.fraction.2 :=
  (crosses_fraction reader).passes

theorem passes_exponent (reader : Reader) : reader.Passes reader.exponent.2 :=
  (crosses_exponent reader).passes

/-! ## Tokens -/

theorem isNameStart_isNameChar {c : Char} (starts : isNameStart c = true) :
    isNameChar c = true := by
  simp only [isNameStart, isNameChar, Char.isAlphanum, Bool.or_eq_true] at starts ⊢
  exact starts.imp_left .inl

/-- Whether a number begins here: with a digit, or with a dot before one. -/
def opensNumber : List Char → Bool
  | '.' :: c :: _ => c.isDigit
  | c :: _ => c.isDigit
  | [] => false

/-- A fraction that is there is not empty. -/
theorem advances_fraction {c : Char} {rest : List Char} (next : reader.unread = '.' :: c :: rest)
    (digit : c.isDigit = true) : reader.Advances reader.fraction.2 := by
  have dot : reader.peek? 0 = some '.' := by simp [peek?, next]
  have after : ((reader.look 2).peek? 1).any Char.isDigit = true := by
    simp [peek?, look, next, digit]
  simp only [fraction, dot, after, ↓reduceIte]
  have skipped : (reader.look 2).Advances ((reader.look 2).skip 1) := advances_skip Nat.one_pos next
  exact (passes_look 2 reader).advances (skipped.trans (passes_run _ _))

theorem advances_number (opens : opensNumber reader.unread = true) :
    reader.Advances reader.number.2 := by
  have looked : reader.Passes (if reader.peek? 0 = some '0' then reader.look 2 else reader) := by
    split
    · exact passes_look 2 reader
    · exact Passes.refl reader
  have same := reader.unread_lookRadix
  simp only [number]
  generalize (if reader.peek? 0 = some '0' then reader.look 2 else reader) = start at looked same
  rcases next : reader.unread with _ | ⟨c, rest⟩
  · rw [next] at opens
    contradiction
  · rw [next] at same
    split
    · exact looked.advances ((advances_skip Nat.two_pos same).trans (passes_run _ _))
    · apply looked.advances
      by_cases digit : c.isDigit = true
      · apply (advances_run same (isDigitOrUnderscore_of_isDigit digit)).trans
        exact (passes_fraction _).trans (passes_exponent _)
      · -- Without a digit there is no run to pass over, and the fraction begins at once.
        rcases rest with _ | ⟨d, rest⟩
        · simp [next, opensNumber, digit] at opens
        · obtain ⟨rfl, fraction⟩ : c = '.' ∧ d.isDigit = true := by
            by_cases dot : c = '.'
            · subst dot
              rw [next] at opens
              exact ⟨rfl, opens⟩
            · rw [next, opensNumber] at opens
              · exact absurd opens digit
              · rintro _ _ rfl
                contradiction
          have whole : (start.run isDigitOrUnderscore).2.unread = '.' :: d :: rest := by
            simp [run, look, skip, same, isDigitOrUnderscore, Char.isDigit]
          exact (passes_run _ start).advances
            ((advances_fraction whole fraction).trans (passes_exponent _))

theorem advances_name {c : Char} {rest : List Char} (next : reader.unread = c :: rest)
    (starts : isNameStart c = true) : reader.Advances reader.name.2 := by
  refine (advances_skip ?_ next).trans (passes_look _ _)
  rw [next, nameText_char _ (isNameStart_isNameChar starts)]
  exact Nat.succ_pos _

/-- An operator takes a character at least, and so does a character that is none. -/
theorem advances_operator {c : Char} {rest : List Char} (next : reader.unread = c :: rest) :
    reader.Advances reader.operator.2 := by
  have looked : (reader.look 3).unread = c :: rest := next
  have spelled : ∀ spelling ∈ operatorSpellings, 0 < spelling.length := by decide
  simp only [operator]
  split
  · next spelling found =>
    exact (passes_look 3 reader).advances
      (advances_skip (spelled spelling (List.mem_of_find?_eq_some found)) looked)
  · exact (passes_look 3 reader).advances (advances_skip Nat.one_pos looked)

theorem passes_literal {opened : Reader} {cause : ScanCause} {body : Option Body}
    {scanned : List Char → Reader → Reading}
    (passes : ∀ (text : List Char) (after : Reader), after.Passes (scanned text after).2) :
    opened.Passes (reader.literal opened cause body scanned).2 := by
  cases body with
  | none => exact passes_exhaust opened
  | some body => exact (passes_skip _ _).trans (passes body.text _)

theorem passes_pattern {opened : Reader} {opener : Char} :
    opened.Passes (reader.pattern opened opener).2 :=
  passes_literal fun _ _ => passes_run _ _

theorem passes_plainWord {text : List Char} :
    after.Passes (word.plainWord reader after text).2 := by
  simp only [word.plainWord]
  split
  · exact passes_versionParts after
  · exact Passes.refl after

theorem passes_word {previous : Option Category} {reading : Reading}
    (read : reader.word previous = some reading) : reader.name.2.Passes reading.2 := by
  cases word_cases read with
  | string => exact (passes_skip 1 _).trans (passes_literal fun _ after => Passes.refl after)
  | words => exact (passes_skip 1 _).trans (passes_literal fun _ after => Passes.refl after)
  | pattern => exact (passes_skip 1 _).trans passes_pattern
  | plain => exact passes_plainWord

theorem advances_sigil {sigil : Sigil} {rest : List Char} {reading : Reading}
    (next : reader.unread = sigil.char :: rest) (found : SigilCase reader sigil reading) :
    reader.Advances reading.2 := by
  have looked : (reader.look 3).unread = sigil.char :: rest := next
  have skip (count : Nat) : reader.Advances ((reader.look 3).skip (count + 1)) :=
    (passes_look 3 reader).advances (advances_skip (Nat.succ_pos count) looked)
  cases found with
  | named => exact (skip _).trans (passes_name _)
  | digits => exact (skip 1).trans (passes_run _ _)
  | spelled => exact skip _
  | operator => exact (passes_look 3 reader).advances (advances_operator looked)
  | fault count => exact skip count

/-- Every item takes a character at least. -/
theorem advances_scan {context : Context} {c : Char} {rest : List Char} {reading : Reading}
    (next : reader.unread = c :: rest) (read : reader.scan context c = some reading) :
    reader.Advances reading.2 := by
  have looked : (reader.look 2).unread = c :: rest := next
  cases scan_cases read with
  | number digit =>
    apply advances_number
    rw [next, opensNumber]
    · exact digit
    · rintro _ _ rfl
      contradiction
  | fraction dot digit =>
    refine (passes_look 2 reader).advances (advances_number ?_)
    subst dot
    rw [looked]
    cases rest with
    | nil => simp [peek?, looked] at digit
    | cons d rest => simpa [peek?, looked, opensNumber] using digit
  | quoted =>
    exact (advances_skip Nat.one_pos next).trans (passes_literal fun _ after => Passes.refl after)
  | word starts read => exact (advances_name next starts).trans (passes_word read)
  | sigil sigil spelled =>
    rw [spelled] at next
    exact advances_sigil next (sigil_cases next)
  | pattern => exact (advances_skip Nat.one_pos next).trans passes_pattern
  | operator => exact advances_operator next
  | dot => exact (passes_look 2 reader).advances (advances_operator looked)

end Reader

end SigilScript
