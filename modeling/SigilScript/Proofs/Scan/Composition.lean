import SigilScript.Proofs.Scan.Extension
import SigilScript.Proofs.Scan.Run

/-! # Scanning one text behind another

A text whose last character is a terminator leaves the scanner as it was at the start, but for the
place: no brace is open, nothing was read that a slash could divide, and what stands behind it is
read as a text of its own.
-/

namespace SigilScript

namespace Scanner

variable {count : Nat} {tail : List Char} {scanner further after final : Scanner} {item : Scanned}
  {items : List Scanned}

/-- Two scanners in the same state but for the place and for the text behind. -/
structure Extends (count : Nat) (tail : List Char) (scanner further : Scanner) : Prop where
  reader : scanner.reader.Extends count tail further.reader
  context : further.context = scanner.context
  finished : further.finished = scanner.finished

theorem contextBehind_moved (context : Context) (item : Scanned) (move : Position → Position) :
    contextBehind context (moveScanned move item) = contextBehind context item := by
  cases item <;> rfl

/-- What one scanner reads behind the gap before it, the other one reads too. -/
theorem next_behind_gap (parts : Parts tail)
    (gap : scanner.reader.skipGap.Extends count tail further.reader.skipGap)
    (context : further.context = scanner.context) (finished : further.finished = scanner.finished)
    (read : scanner.next = (some item, after)) (told : Told [] tail item) :
    ∃ after' : Scanner, further.next = (some (moveScanned (Position.lower count) item), after') ∧
      after.Extends count tail after' := by
  obtain ⟨running, c, rest, reader, unread, scanned, rfl⟩ := scan_of_next read
  have unread' : further.reader.skipGap.unread = c :: (rest ++ tail) := by
    rw [gap.unread, unread]
    rfl
  obtain ⟨reader', scanned', behind⟩ := gap.scan parts unread scanned told
  rw [← context] at scanned'
  rw [← finished] at running
  refine ⟨_, next_of_scan running unread' scanned', behind, ?_, rfl⟩
  rw [context, contextBehind_moved]

/-- Where one scanner finds nothing, the other one finds nothing. -/
theorem next_none_behind_gap
    (gap : scanner.reader.skipGap.Extends count [] further.reader.skipGap)
    (context : further.context = scanner.context) (finished : further.finished = scanner.finished)
    (running : scanner.finished = false) (read : scanner.next = (none, after)) :
    further.next.1 = none := by
  apply next_of_end (finished.trans running)
  intro c rest unread'
  have unread : scanner.reader.skipGap.unread = c :: rest := by
    rw [← unread', gap.unread, List.append_nil]
  rw [context]
  exact gap.scan_none (scan_of_next_none running read unread)

/-- Behind the same gap the same remains. -/
theorem remaining_behind_gap {scanner further : Scanner}
    (gap : scanner.reader.skipGap.Extends count [] further.reader.skipGap)
    (context : further.context = scanner.context) (running : scanner.finished = false)
    (running' : further.finished = false) :
    further.remaining = scanner.remaining.map (moveScanned (Position.lower count)) := by
  have finished := running'.trans running.symm
  rcases read : scanner.next with ⟨_ | item, after⟩
  · have nothing := next_none_behind_gap gap context finished running read
    rw [remaining_of_none read, remaining_of_none (Prod.ext nothing rfl), List.map_nil]
  · obtain ⟨after', read', behind⟩ :=
      next_behind_gap parts_nil gap context finished read (told_nil item)
    have shorter := (next_some read).2.1.length_lt
    have running := (next_some read).2.2
    rw [remaining_of_some read, remaining_of_some read', List.map_cons,
      remaining_behind_gap (behind.reader.skipGap parts_nil (.inl rfl)) behind.context running
        (behind.finished.trans running)]
termination_by scanner.reader.unread.length

/-! ## Behind a terminator -/

end Scanner

namespace Context

/-- The context behind a terminator outside all braces. -/
def fresh : Context := ⟨some .terminator, false, [], false⟩

theorem next_fresh (token : Token) : fresh.next token = start.next token := by
  rcases token with ⟨kind, text, position⟩
  cases kind <;> rfl

theorem scan_fresh (reader : Reader) (c : Char) : reader.scan fresh c = reader.scan start c := rfl

end Context

namespace Scanner

/-- Behind a terminator outside all braces the same remains as at the start. -/
theorem remaining_fresh (reader : Reader) :
    remaining ⟨reader, .fresh, false⟩ = remaining ⟨reader, .start, false⟩ := by
  rcases read : next ⟨reader, .start, false⟩ with ⟨_ | item, after⟩
  · have nothing : (next ⟨reader, .fresh, false⟩).1 = none :=
      next_of_end rfl fun c rest unread =>
        (Context.scan_fresh ..).trans (scan_of_next_none rfl read unread)
    rw [remaining_of_none read, remaining_of_none (Prod.ext nothing rfl)]
  · have shorter := (next_some read).2.1.length_lt
    obtain ⟨-, c, rest, behind, unread, scanned, rfl⟩ := scan_of_next read
    have read' : next ⟨reader, .fresh, false⟩ =
        (some item, ⟨behind, contextBehind .fresh item, false⟩) := by
      apply next_of_scan rfl
      · exact unread
      · exact (Context.scan_fresh ..).trans scanned
    rw [remaining_of_some read, remaining_of_some read']
    cases item with
    | error fault => exact congrArg (_ :: ·) (remaining_fresh behind)
    | ok token => simp only [contextBehind, Context.next_fresh]
termination_by reader.unread.length

/-! ## Runs -/

/-- A run over a text is one of the longer text as well. -/
theorem Run.extends {further : Scanner} (run : Run scanner items final)
    (extended : scanner.Extends count tail further) (parts : Parts tail)
    (told : ∀ item ∈ items, Told [] tail item) :
    ∃ final' : Scanner, Run further (items.map (moveScanned (Position.lower count))) final' ∧
      final.Extends count tail final' := by
  induction run generalizing further with
  | nil scanner => exact ⟨further, .nil further, extended⟩
  | @cons scanner after final item items read _ ih =>
    obtain ⟨-, c, rest, -, unread, -⟩ := scan_of_next read
    have inside : scanner.reader.skipGap.unread ≠ [] := by
      rw [unread]
      exact List.cons_ne_nil c rest
    obtain ⟨after', read', behind⟩ := next_behind_gap parts
      (extended.reader.skipGap parts (.inr inside)) extended.context extended.finished read
      (told item List.mem_cons_self)
    obtain ⟨final', run', last⟩ :=
      ih behind fun other member => told other (List.mem_cons_of_mem item member)
    exact ⟨final', .cons read' run', last⟩

end Scanner

/-! ## Texts -/

theorem Position.line_after (position : Position) (text : List Char) :
    (position.after text).line = position.line + text.count '\n' := by
  induction text generalizing position with
  | nil => rfl
  | cons c rest ih =>
    apply (ih (position.next c)).trans
    simp only [Position.next, List.count_cons, beq_iff_eq]
    split
    · rw [Nat.add_assoc, Nat.add_comm 1]
    · rfl

/-- Where reading starts: behind a byte order mark, if there is one. -/
theorem Reader.start_spec (text : List Char) :
    (Reader.start text).position = .start ∧
      (Reader.start text).unread.count '\n' = text.count '\n' := by
  rcases text with _ | ⟨c, rest⟩
  · exact ⟨rfl, rfl⟩
  · simp only [Reader.start]
    split
    · next mark =>
      refine ⟨rfl, ?_⟩
      rw [mark, List.count_cons_of_ne (by decide)]
    · exact ⟨rfl, rfl⟩

/-- Where what stands behind a text parts, reading starts with the text all the same. -/
theorem Scanner.start_extends (text : List Char) {tail : List Char} (parts : Parts tail) :
    (Scanner.start text).Extends 0 tail (Scanner.start (text ++ tail)) := by
  refine ⟨⟨?_, ?_⟩, rfl, rfl⟩
  · rcases text with _ | ⟨c, rest⟩
    · exact Reader.unread_start_of_no_mark (Parted.ne parts (by decide))
    · simp only [Scanner.start, Reader.start, List.cons_append]
      split <;> rfl
  · simp only [Scanner.start, (Reader.start_spec _).1]
    rfl

/-- The state behind the tokens of a text that are all of it, where what stands behind parts. -/
theorem Scanner.Run.append {text tail : List Char} {tokens : List Token} {final : Scanner}
    (run : (Scanner.start text).Run (tokens.map .ok) final) (unread : final.reader.unread = [])
    (parts : Parts tail) :
    ∃ final' : Scanner, (Scanner.start (text ++ tail)).Run (tokens.map .ok) final' ∧
      final'.reader.unread = tail ∧
      final'.reader.position = Position.start.after (Reader.start text).unread ∧
      final'.context = Context.start.after tokens ∧ final'.finished = false := by
  obtain ⟨final', run', extended⟩ :=
    run.extends (Scanner.start_extends text parts) parts fun item member => by
      obtain ⟨token, -, rfl⟩ := List.mem_map.mp member
      exact told_token tail token
  rw [Position.lower_zero, moveScanned_id, List.map_id] at run'
  obtain ⟨passed, consumed, position⟩ := run.passes
  rw [unread, List.append_nil] at consumed
  change (Reader.start text).unread = passed at consumed
  have place : (Scanner.start text).reader.position = .start := (Reader.start_spec text).1
  refine ⟨final', run', ?_, ?_, run'.context, run'.finished rfl⟩
  · rw [extended.reader.unread, unread, List.nil_append]
  · rw [extended.reader.position, Position.lower_zero, id, position, place, consumed]

/-- A text without faults whose last character is a token of its own, a terminator. -/
structure Terminated (text : List Char) (tokens : List Token) : Prop where
  sound : tokenize text = .ok tokens
  character : text.getLast? = some ';'
  token : ∃ last final, (some (.ok last), final) ∈ scanTrace text ∧ last.kind = .semicolon ∧
    final.reader.unread = []

theorem items_of_mapM {items : List Scanned} {tokens : List Token}
    (sound : items.mapM id = .ok tokens) : items = tokens.map .ok := by
  induction items generalizing tokens with
  | nil =>
    obtain rfl := Except.ok.inj sound
    rfl
  | cons item items ih =>
    rw [List.mapM_cons] at sound
    rcases item with fault | token
    · contradiction
    · rcases read : items.mapM id with fault | further
      · simp [read, bind, Except.bind] at sound
      · simp only [read, id, bind, Except.bind, pure, Except.pure, Except.ok.injEq] at sound
        rw [ih read, ← sound, List.map_cons]

theorem scan_of_tokenize {text : List Char} {tokens : List Token}
    (sound : tokenize text = .ok tokens) : scan text = tokens.map .ok :=
  items_of_mapM sound

theorem Scanner.remaining_of_unread {scanner : Scanner} (unread : scanner.reader.unread = []) :
    scanner.remaining = [] := by
  rcases read : scanner.next with ⟨_ | item, after⟩
  · exact remaining_of_none read
  · have shorter := (next_some read).2.1.length_lt
    rw [unread] at shorter
    contradiction

/-- The tokens of a text that ends with its last token are those of a run over it. -/
theorem run_of_last {text : List Char} {tokens : List Token} {last : Token} {final : Scanner}
    (sound : tokenize text = .ok tokens) (answered : (some (.ok last), final) ∈ scanTrace text)
    (unread : final.reader.unread = []) :
    ∃ front, tokens = front ++ [last] ∧ (Scanner.start text).Run (tokens.map .ok) final := by
  obtain ⟨items, run⟩ := Scanner.run_of_mem_trace answered
  have whole := run.remaining
  rw [← scan_eq_remaining, scan_of_tokenize sound, Scanner.remaining_of_unread unread,
    List.append_nil] at whole
  rw [← whole] at run
  obtain ⟨front, final', rfl, -, behind⟩ := List.map_eq_append_iff.mp whole
  obtain ⟨last', rfl, same⟩ := List.map_eq_singleton_iff.mp behind
  obtain rfl := Except.ok.inj same
  exact ⟨front, rfl, run⟩

/-- The tokens of a terminated text are those of a run over it, and the last one is a terminator. -/
theorem Terminated.run {text : List Char} {tokens : List Token} (ends : Terminated text tokens) :
    ∃ (front : List Token) (last : Token) (final : Scanner), tokens = front ++ [last] ∧
      last.kind = .semicolon ∧ (Scanner.start text).Run (tokens.map .ok) final ∧
      final.reader.unread = [] := by
  obtain ⟨last, final, answered, terminator, unread⟩ := ends.token
  obtain ⟨front, rfl, run⟩ := run_of_last ends.sound answered unread
  exact ⟨front, last, final, rfl, terminator, run, unread⟩

theorem Token.category_classify_terminator {token : Token} (ends : token.kind = .semicolon)
    (previous : Option Category) : (token.classify previous).category = .terminator := by
  rcases token with ⟨kind, text, position⟩
  subst ends
  rfl

namespace Context

/-- Behind a terminator outside all braces the context is fresh. -/
theorem next_terminator {context : Context} (outside : context.blocks = []) {token : Token}
    (ends : token.kind = .semicolon) : context.next token = .fresh := by
  rcases token with ⟨kind, text, position⟩
  subst ends
  simp only [next, outside]
  rfl

theorem after_terminated {front : List Token} {last : Token}
    (nested : Nested (start.lexemes (front ++ [last]))) (ends : last.kind = .semicolon) :
    start.after (front ++ [last]) = .fresh := by
  have plain : (last.classify (start.after front).previous).category.isCloser = false := by
    rw [Token.category_classify_terminator ends]
    rfl
  have before : Nested (start.lexemes front) :=
    nested.init (start.lexemes_append front [last]) plain
  have held := before.braced.blocks_after (start.faithful_lexemes front) .start
  rw [map_token_lexemes, List.drop_zero] at held
  rw [after_append]
  exact next_terminator held ends

end Context

/-- A text behind a terminated one is scanned as if it stood alone, some lines further down. -/
theorem scan_append {text following : List Char} {tokens : List Token}
    (ends : Terminated text tokens) (nested : Nested (Context.start.lexemes tokens))
    (noMark : following.head? ≠ some '\ufeff') :
    scan (text ++ '\n' :: following) = tokens.map .ok ++
      (scan following).map (moveScanned (Position.lower (text.count '\n' + 1))) := by
  obtain ⟨front, last, final, rfl, terminator, run, unread⟩ := ends.run
  have parts : Parts ('\n' :: following) := parts_cons (by decide) following
  obtain ⟨final', run', behind, place, context, running⟩ := run.append unread parts
  rw [Context.after_terminated nested terminator] at context
  have line : final'.reader.position.line = text.count '\n' + 1 := by
    rw [place, Position.line_after, (Reader.start_spec text).2]
    exact Nat.add_comm 1 _
  have gap := Reader.skipGap_newline behind (Reader.unread_start_of_no_mark noMark)
    (Reader.start_spec following).1
  rw [line] at gap
  have behind : Scanner.remaining ⟨final'.reader, .start, false⟩ =
      (Scanner.start following).remaining.map
        (moveScanned (Position.lower (text.count '\n' + 1))) :=
    Scanner.remaining_behind_gap gap rfl rfl rfl
  have same : final' = ⟨final'.reader, .fresh, false⟩ := by rw [← context, ← running]
  rw [scan_eq_remaining, run'.remaining, same, Scanner.remaining_fresh, behind, scan_eq_remaining]

end SigilScript
