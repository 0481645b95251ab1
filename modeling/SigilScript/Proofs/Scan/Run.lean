import SigilScript.Proofs.Scan.Braces
import SigilScript.Proofs.Scan.Progress

/-! # Runs of the scanner

A run leads from one state to another and reads items on the way. What remains to be scanned does
not depend on how many calls are allowed for it, so a scan is what a run reads and then what
remains behind it.
-/

namespace SigilScript

namespace Scanner

variable {scanner after final : Scanner} {item : Scanned} {items : List Scanned}

/-- The context behind an item: a fault leaves it as it was. -/
def contextBehind (context : Context) : Scanned → Context
  | .error _ => context
  | .ok token => context.next token

theorem next_of_scan (running : scanner.finished = false) {c : Char} {rest : List Char}
    (unread : scanner.reader.skipGap.unread = c :: rest) {reader : Reader}
    (scanned : scanner.reader.skipGap.scan scanner.context c = some (item, reader)) :
    scanner.next = (some item, ⟨reader, contextBehind scanner.context item, false⟩) := by
  cases item <;> simp [next, running, unread, scanned, contextBehind]

theorem next_of_end (running : scanner.finished = false)
    (ends : ∀ c rest, scanner.reader.skipGap.unread = c :: rest →
      scanner.reader.skipGap.scan scanner.context c = none) : scanner.next.1 = none := by
  simp only [next, running, Bool.false_eq_true, ↓reduceIte]
  split
  · rfl
  · next c rest unread => rw [ends c rest unread]

/-- An item is what begins behind the gap. -/
theorem scan_of_next (read : scanner.next = (some item, after)) :
    scanner.finished = false ∧ ∃ (c : Char) (rest : List Char) (reader : Reader),
      scanner.reader.skipGap.unread = c :: rest ∧
      scanner.reader.skipGap.scan scanner.context c = some (item, reader) ∧
      after = ⟨reader, contextBehind scanner.context item, false⟩ := by
  simp only [next] at read
  split at read
  · simp at read
  · next running =>
    refine ⟨Bool.eq_false_iff.mpr running, ?_⟩
    split at read
    · simp at read
    · next c rest unread =>
      split at read
      · simp at read
      · next fault reader scanned =>
        simp only [Prod.mk.injEq, Option.some.injEq] at read
        obtain ⟨rfl, rfl⟩ := read
        exact ⟨c, rest, reader, unread, scanned, by rw [Bool.eq_false_iff.mpr running]; rfl⟩
      · next token reader scanned =>
        simp only [Prod.mk.injEq, Option.some.injEq] at read
        obtain ⟨rfl, rfl⟩ := read
        exact ⟨c, rest, reader, unread, scanned, rfl⟩

/-- Nothing is read at the end of the text, and where a word ends the program. -/
theorem scan_of_next_none (running : scanner.finished = false)
    (read : scanner.next = (none, after)) {c : Char} {rest : List Char}
    (unread : scanner.reader.skipGap.unread = c :: rest) :
    scanner.reader.skipGap.scan scanner.context c = none := by
  rcases scanned : scanner.reader.skipGap.scan scanner.context c with _ | ⟨item, reader⟩
  · rfl
  · rw [next_of_scan running unread scanned] at read
    simp at read

theorem next_some (read : scanner.next = (some item, after)) :
    scanner.finished = false ∧ scanner.reader.Advances after.reader ∧ after.finished = false := by
  obtain ⟨running, c, rest, reader, unread, scanned, rfl⟩ := scan_of_next read
  exact ⟨running, scanner.reader.passes_skipGap.advances (Reader.advances_scan unread scanned), rfl⟩

/-- Calls beyond what the unread characters can take find nothing more. -/
theorem trace_enough (scanner : Scanner) {calls more : Nat}
    (enough : scanner.reader.unread.length < calls)
    (enough' : scanner.reader.unread.length < more) :
    scanner.trace calls = scanner.trace more := by
  induction calls generalizing scanner more with
  | zero => contradiction
  | succ calls ih =>
    obtain ⟨more, rfl⟩ : ∃ fewer, more = fewer + 1 := ⟨more - 1, by omega⟩
    simp only [trace]
    rcases read : scanner.next with ⟨_ | item, after⟩
    · rfl
    · have shorter := (next_some read).2.1.length_lt
      exact congrArg (_ :: ·) (ih after (by omega) (by omega))

/-- What remains to be scanned from a state. -/
def remaining (scanner : Scanner) : List Scanned :=
  (scanner.trace (scanner.reader.unread.length + 1)).filterMap Prod.fst

theorem remaining_of_none (read : scanner.next = (none, after)) : scanner.remaining = [] := by
  simp only [remaining, trace, read, List.filterMap_cons, List.filterMap_nil]

theorem remaining_of_some (read : scanner.next = (some item, after)) :
    scanner.remaining = item :: after.remaining := by
  have shorter := (next_some read).2.1.length_lt
  have same := after.trace_enough shorter (Nat.lt_succ_self after.reader.unread.length)
  simp only [remaining, trace, read, List.filterMap_cons, same]

/-- What remains begins with what the next call answers. -/
theorem next_of_remaining {items : List Scanned} (same : scanner.remaining = item :: items) :
    ∃ after : Scanner, scanner.next = (some item, after) ∧ after.remaining = items := by
  rcases read : scanner.next with ⟨_ | first, after⟩
  · rw [remaining_of_none read] at same
    contradiction
  · rw [remaining_of_some read] at same
    obtain ⟨rfl, further⟩ := List.cons.inj same
    exact ⟨after, rfl, further⟩

/-- A run from one state to another, with the items that are read on the way. -/
inductive Run : Scanner → List Scanned → Scanner → Prop where
  | nil (scanner : Scanner) : Run scanner [] scanner
  | cons {scanner after final : Scanner} {item : Scanned} {items : List Scanned} :
    scanner.next = (some item, after) → Run after items final → Run scanner (item :: items) final

theorem Run.remaining (run : Run scanner items final) :
    scanner.remaining = items ++ final.remaining := by
  induction run with
  | nil => rfl
  | cons read _ ih => rw [remaining_of_some read, ih, List.cons_append]

theorem Run.passes (run : Run scanner items final) : scanner.reader.Passes final.reader := by
  induction run with
  | nil => exact Reader.Passes.refl _
  | cons read _ ih => exact (next_some read).2.1.passes.trans ih

theorem Run.finished (run : Run scanner items final) (running : scanner.finished = false) :
    final.finished = false := by
  induction run with
  | nil => exact running
  | cons read _ ih => exact ih (next_some read).2.2

/-- Behind tokens alone the context is the one they lead to. -/
theorem Run.context {tokens : List Token} (run : Run scanner (tokens.map .ok) final) :
    final.context = scanner.context.after tokens := by
  induction tokens generalizing scanner with
  | nil =>
    cases run
    rfl
  | cons token rest ih =>
    cases run with
    | cons read run =>
      obtain ⟨-, c, text, reader, -, -, rfl⟩ := scan_of_next read
      exact ih run

/-- Every call of a trace that answers an item ends a run. -/
theorem run_of_mem_trace {calls : Nat} (answered : (some item, final) ∈ scanner.trace calls) :
    ∃ items, Run scanner (items ++ [item]) final := by
  induction calls generalizing scanner with
  | zero => simp only [trace, List.not_mem_nil] at answered
  | succ calls ih =>
    simp only [trace] at answered
    rcases read : scanner.next with ⟨_ | first, after⟩
    · simp [read] at answered
    · simp only [read, List.mem_cons, Prod.mk.injEq, Option.some.injEq] at answered
      rcases answered with ⟨rfl, rfl⟩ | later
      · exact ⟨[], .cons read (.nil _)⟩
      · obtain ⟨items, run⟩ := ih later
        exact ⟨first :: items, .cons read run⟩

/-- The items of a trace begin with what the next call answers. -/
theorem next_of_trace {calls : Nat} {items : List Scanned}
    (answered : (scanner.trace calls).filterMap Prod.fst = item :: items) :
    ∃ (fewer : Nat) (after : Scanner), scanner.next = (some item, after) ∧
      scanner.trace calls = (some item, after) :: after.trace fewer ∧
      (after.trace fewer).filterMap Prod.fst = items := by
  cases calls with
  | zero => contradiction
  | succ fewer =>
    simp only [trace] at answered ⊢
    rcases read : scanner.next with ⟨_ | first, after⟩
    · simp [read] at answered
    · simp only [read, List.filterMap_cons] at answered
      obtain ⟨rfl, further⟩ := List.cons.inj answered
      exact ⟨fewer, after, rfl, rfl, further⟩

/-- The call of a trace that answers a token, with the context that the tokens so far lead to. -/
theorem trace_getElem? {calls : Nat} {front more : List Token} {token : Token}
    (answered : (scanner.trace calls).filterMap Prod.fst =
      (front ++ token :: more).map .ok) :
    ∃ final : Scanner, (scanner.trace calls)[front.length]? = some (some (.ok token), final) ∧
      final.context = scanner.context.after (front ++ [token]) := by
  induction front generalizing scanner calls with
  | nil =>
    obtain ⟨fewer, after, read, traced, -⟩ := next_of_trace answered
    rw [traced]
    exact ⟨after, rfl, Run.context (.cons read (.nil after))⟩
  | cons first front ih =>
    obtain ⟨fewer, after, read, traced, further⟩ := next_of_trace answered
    obtain ⟨final, found, context⟩ := ih further
    have behind : after.context = scanner.context.after [first] :=
      Run.context (.cons read (.nil after))
    rw [behind] at context
    rw [traced]
    exact ⟨final, found, context⟩

end Scanner

theorem Reader.length_unread_start (text : List Char) :
    (Reader.start text).unread.length ≤ text.length := by
  rcases text with _ | ⟨c, rest⟩
  · exact Nat.le_refl 0
  · simp only [Reader.start]
    split
    · exact Nat.le_succ rest.length
    · exact Nat.le_refl _

theorem scan_eq_remaining (text : List Char) : scan text = (Scanner.start text).remaining := by
  have enough := Nat.lt_succ_of_le (Reader.length_unread_start text)
  rw [scan, scanTrace, (Scanner.start text).trace_enough enough (Nat.lt_succ_self _)]
  rfl

end SigilScript
