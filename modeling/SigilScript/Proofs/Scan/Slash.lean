import SigilScript.Proofs.Scan.Composition

/-! # A slash behind a text

Where the last token of a text ended an operand, a slash behind the text divides. Elsewhere it opens
a pattern, and where the pattern has no end, what stands behind the slash is read as if the slash
were not there.
-/

namespace SigilScript

namespace Reader

variable {reader : Reader} {c : Char} {rest : List Char}

theorem skipGap_space (solid : isGapSpace c = false) (noComment : c ≠ '#') (noEquals : c ≠ '=')
    (unread : reader.unread = ' ' :: c :: rest) :
    reader.skipGap.unread = c :: rest ∧ reader.skipGap.position = reader.position.next ' ' := by
  have blank : IsGap (reader.position.column = 1) [' '] (c :: rest) := .space rfl (.nil _ _)
  exact skipGap_solid solid noComment noEquals blank unread

theorem operator_of {text : List Char} (unread : reader.unread = text) {spelling : String}
    (found : (operatorSpellings.find? fun spelling => spelling.toList.isPrefixOf text) =
      some spelling) :
    reader.operator = (.ok ⟨.ofOperator spelling, spelling, reader.position⟩,
      (reader.look 3).skip spelling.length) := by
  have same : (reader.look 3).unread = text := unread
  simp only [operator, same, found]

end Reader

namespace Scanner

variable {scanner : Scanner}

theorem remaining_semicolon (running : scanner.finished = false)
    (unread : scanner.reader.unread = [';']) :
    scanner.remaining = [.ok ⟨.semicolon, ";", scanner.reader.position⟩] := by
  obtain ⟨gap, place⟩ := Reader.skipGap_solid rfl (by decide) (by decide) (.nil _ _) unread
  have found : (operatorSpellings.find? fun spelling => spelling.toList.isPrefixOf [';']) =
      some ";" := by decide
  have scanned : scanner.reader.skipGap.scan scanner.context ';' =
      some scanner.reader.skipGap.operator := by
    simp [Reader.scan, isNameStart]
  rw [Reader.operator_of gap found, place] at scanned
  rw [remaining_of_some (next_of_scan running gap scanned), remaining_of_unread]
  · rfl
  · simp only [Reader.skip, Reader.look, gap]
    rfl

/-- A variable with a name of one letter, and the terminator behind it. -/
theorem remaining_variable (running : scanner.finished = false)
    (unread : scanner.reader.unread = [' ', '$', 'd', ';']) :
    scanner.remaining =
      [.ok ⟨.var .scalar, "$d", scanner.reader.position.next ' '⟩,
        .ok ⟨.semicolon, ";", scanner.reader.position.after " $d".toList⟩] := by
  obtain ⟨gap, place⟩ := Reader.skipGap_space rfl (by decide) (by decide) unread
  have looked : (scanner.reader.skipGap.look 3).unread = ['$', 'd', ';'] := gap
  have scanned : scanner.reader.skipGap.scan scanner.context '$' =
      some (scanner.reader.skipGap.sigil .scalar) := by
    simp [Reader.scan, isNameStart]
  have named : scanner.reader.skipGap.sigil .scalar =
      (.ok ⟨.var .scalar, "$d", scanner.reader.skipGap.position⟩,
        ((scanner.reader.skipGap.look 3).skip 1).name.2) := by
    have name : ((scanner.reader.skipGap.look 3).skip 1).name.1 = ['d'] := by
      simp only [Reader.name, Reader.skip, looked]
      rfl
    have next : (scanner.reader.skipGap.look 3).peek? 1 = some 'd' := by
      simp only [Reader.peek?, looked]
      rfl
    have starts : isNameStart 'd' = true := rfl
    simp only [Reader.sigil, next, Option.any_some, starts, ↓reduceIte]
    change (scanner.reader.skipGap.token _ (_ ++ ((scanner.reader.skipGap.look 3).skip 1).name.1),
      _) = _
    rw [name]
    rfl
  rw [named, place] at scanned
  have read := next_of_scan running gap scanned
  have behind : ((scanner.reader.skipGap.look 3).skip 1).name.2.unread = [';'] := by
    simp only [Reader.name, Reader.skip, Reader.look, gap]
    rfl
  have further : ((scanner.reader.skipGap.look 3).skip 1).name.2.position =
      scanner.reader.position.after " $d".toList := by
    simp only [Reader.name, Reader.skip, Reader.look, gap, place]
    rfl
  rw [remaining_of_some read, remaining_semicolon rfl behind, further]

/-- Behind an operand a slash divides. -/
theorem remaining_division (running : scanner.finished = false)
    (operand : scanner.context.afterOperand = true)
    (unread : scanner.reader.unread = [' ', '/', ' ', '$', 'd', ';']) :
    scanner.remaining =
      [.ok ⟨.operator, "/", scanner.reader.position.next ' '⟩,
        .ok ⟨.var .scalar, "$d", scanner.reader.position.after " / ".toList⟩,
        .ok ⟨.semicolon, ";", scanner.reader.position.after " / $d".toList⟩] := by
  obtain ⟨gap, place⟩ := Reader.skipGap_space rfl (by decide) (by decide) unread
  have found : (operatorSpellings.find? fun spelling =>
      spelling.toList.isPrefixOf ['/', ' ', '$', 'd', ';']) = some "/" := by decide
  have scanned : scanner.reader.skipGap.scan scanner.context '/' =
      some scanner.reader.skipGap.operator := by
    simp [Reader.scan, isNameStart, operand]
  rw [Reader.operator_of gap found, place] at scanned
  have read := next_of_scan running gap scanned
  have behind : ((scanner.reader.skipGap.look 3).skip "/".length).unread =
      [' ', '$', 'd', ';'] := by
    simp only [Reader.skip, Reader.look, gap]
    rfl
  have further : ((scanner.reader.skipGap.look 3).skip "/".length).position =
      (scanner.reader.position.next ' ').next '/' := by
    simp only [Reader.skip, Reader.look, gap, place]
    rfl
  rw [remaining_of_some read, remaining_variable rfl behind, further]
  rfl

/-- Elsewhere a slash opens a pattern, whose end is missing here. -/
theorem remaining_pattern (running : scanner.finished = false)
    (noOperand : scanner.context.afterOperand = false)
    (unread : scanner.reader.unread = [' ', '/', ' ', '$', 'd', ';']) :
    scanner.remaining =
      [.error ⟨.unterminatedRegex, scanner.reader.position.next ' '⟩,
        .ok ⟨.var .scalar, "$d", scanner.reader.position.after " / ".toList⟩,
        .ok ⟨.semicolon, ";", scanner.reader.position.after " / $d".toList⟩] := by
  obtain ⟨gap, place⟩ := Reader.skipGap_space rfl (by decide) (by decide) unread
  have opened : (scanner.reader.skipGap.skip 1).unread =
      [' ', '$', 'd', ';'] := by
    simp only [Reader.skip, gap]
    rfl
  have missing : patternBody? '/' [' ', '$', 'd', ';'] = none := by decide
  have pattern : scanner.reader.skipGap.pattern (scanner.reader.skipGap.skip 1) '/' =
      (.error ⟨.unterminatedRegex, scanner.reader.skipGap.position⟩,
        (scanner.reader.skipGap.skip 1).exhaust) := by
    simp only [Reader.pattern, opened, missing, Reader.literal, Reader.fault]
  have scanned : scanner.reader.skipGap.scan scanner.context '/' =
      some (scanner.reader.skipGap.pattern (scanner.reader.skipGap.skip 1) '/') := by
    simp [Reader.scan, isNameStart, noOperand]
  rw [pattern] at scanned
  rw [place] at scanned
  have read := next_of_scan running gap scanned
  have further : (scanner.reader.skipGap.skip 1).exhaust.position =
      (scanner.reader.position.next ' ').next '/' := by
    simp only [Reader.exhaust, Reader.skip, gap, place]
    rfl
  rw [remaining_of_some read, remaining_variable rfl opened, further]
  rfl

end Scanner

/-! ## Texts -/

/-- A text without scan faults that ends where its last token does. -/
structure EndsInToken (text : List Char) (tokens : List Token) : Prop where
  sound : tokenize text = .ok tokens
  token : ∃ last final, (some (.ok last), final) ∈ scanTrace text ∧ final.reader.unread = []

variable {text : List Char} {tokens : List Token}

/-- The state behind a text that ends with its last token, where what stands behind it parts. -/
theorem EndsInToken.run_append (ends : EndsInToken text tokens) {tail : List Char}
    (parts : Parts tail) :
    ∃ final : Scanner, (Scanner.start (text ++ tail)).Run (tokens.map .ok) final ∧
      final.reader.unread = tail ∧
      final.reader.position = Position.start.after (Reader.start text).unread ∧
      final.context = Context.start.after tokens ∧ final.finished = false := by
  obtain ⟨last, final, answered, unread⟩ := ends.token
  obtain ⟨front, -, run⟩ := run_of_last ends.sound answered unread
  exact run.append unread parts

theorem scan_semicolon (ends : EndsInToken text tokens) :
    ∃ place, scan (text ++ [';']) = tokens.map .ok ++ [.ok ⟨.semicolon, ";", place⟩] := by
  have parts : Parts [';'] := parts_cons (by decide) []
  obtain ⟨final, run, unread, -, -, running⟩ := ends.run_append parts
  refine ⟨final.reader.position, ?_⟩
  rw [scan_eq_remaining, run.remaining, Scanner.remaining_semicolon running unread]

theorem scan_division (ends : EndsInToken text tokens)
    (operand : (Context.start.after tokens).afterOperand = true) :
    ∃ place place' place'', scan (text ++ " / $d;".toList) = tokens.map .ok ++
      [.ok ⟨.operator, "/", place⟩, .ok ⟨.var .scalar, "$d", place'⟩,
        .ok ⟨.semicolon, ";", place''⟩] := by
  have parts : Parts (' ' :: "/ $d;".toList) := parts_cons (by decide) _
  obtain ⟨final, run, unread, -, context, running⟩ := ends.run_append parts
  rw [← context] at operand
  exact ⟨_, _, _, by
    rw [scan_eq_remaining, ← Scanner.remaining_division running operand unread]
    exact run.remaining⟩

theorem scan_pattern (ends : EndsInToken text tokens)
    (noOperand : (Context.start.after tokens).afterOperand = false) :
    ∃ place' place'', scan (text ++ " / $d;".toList) = tokens.map .ok ++
      [.error ⟨.unterminatedRegex, Position.start.after ((Reader.start text).unread ++ [' '])⟩,
        .ok ⟨.var .scalar, "$d", place'⟩, .ok ⟨.semicolon, ";", place''⟩] := by
  have parts : Parts (' ' :: "/ $d;".toList) := parts_cons (by decide) _
  obtain ⟨final, run, unread, place, context, running⟩ := ends.run_append parts
  rw [← context] at noOperand
  refine ⟨final.reader.position.after " / ".toList, final.reader.position.after " / $d".toList, ?_⟩
  rw [Position.after_append, ← place, scan_eq_remaining]
  exact run.remaining.trans
    (congrArg _ (Scanner.remaining_pattern running noOperand unread))

end SigilScript
