import SigilScript.Proofs.Scan.Gaps
import SigilScript.Proofs.Scan.Order
import SigilScript.Proofs.Scan.Slices

/-! # Calls of the scanner

A call of the scanner passes over a gap and over the slice behind it that its item is read from; the
item stands at the first character of the slice. Between two calls the scanner stands where the text
that it has consumed leads to, also when a literal without its end was read and given up, and the
call that finds nothing is the first of calls that find nothing.
-/

namespace SigilScript

/-! ## Places, counted from the start -/

/-- The place behind a text: as many lines down as it has newlines, and as many columns on as it has
characters behind the last of them. -/
def placeBehind (text : List Char) : Position :=
  ⟨text.count '\n' + 1, (text.reverse.takeWhile (· ≠ '\n')).length + 1⟩

theorem next_placeBehind (text : List Char) (c : Char) :
    (placeBehind text).next c = placeBehind (text ++ [c]) := by
  by_cases newline : c = '\n'
  · simp [placeBehind, Position.next, newline]
  · simp [placeBehind, Position.next, newline, List.count_append]

theorem after_placeBehind (text more : List Char) :
    (placeBehind text).after more = placeBehind (text ++ more) := by
  induction more generalizing text with
  | nil => rw [List.append_nil]; rfl
  | cons c more ih =>
    have behind := ih (text ++ [c])
    rwa [← next_placeBehind, List.append_assoc] at behind

/-- A text without the byte order mark that may open it. -/
def withoutMark (text : List Char) : List Char :=
  if text.head? = some '\ufeff' then text.tail else text

/-! ## A reader within its text -/

namespace Reader

variable {reader after : Reader} {text front : List Char}

/-- What a reader has consumed and what is unread make up the text, and the reader stands where the
one leads to and has pulled no more than there is. -/
structure StandsIn (text : List Char) (reader : Reader) : Prop where
  unread : reader.unread = text.drop reader.consumed
  position : reader.position = placeBehind (withoutMark (text.take reader.consumed))
  pulled : reader.pulled ≤ text.length

theorem unread_start (text : List Char) : (start text).unread = withoutMark text := by
  cases text with
  | nil => rfl
  | cons c rest =>
    by_cases mark : c = '\ufeff'
    · simp [start, withoutMark, mark]
    · simp [start, withoutMark, mark]

theorem unread_start_of_no_mark {text : List Char} (noMark : text.head? ≠ some '\ufeff') :
    (start text).unread = text :=
  (unread_start text).trans (if_neg noMark)

/-- A reader starts behind the mark, which counts as consumed and moves no column. -/
theorem start_behind_mark (text : List Char) : ∃ mark, text = mark ++ withoutMark text ∧
    (start text).consumed = mark.length ∧ (start text).position = .start ∧
    (start text).ahead ≤ (start text).unread.length ∧
    ∀ front rest, withoutMark text = front ++ rest → withoutMark (mark ++ front) = front := by
  cases text with
  | nil =>
    refine ⟨[], rfl, rfl, rfl, Nat.le_refl 0, fun front rest same => ?_⟩
    obtain ⟨rfl, -⟩ := List.append_eq_nil_iff.mp same.symm
    rfl
  | cons c rest =>
    by_cases mark : c = '\ufeff'
    · refine ⟨['\ufeff'], ?_, ?_, ?_, ?_, fun front rest same => ?_⟩
      · simp [withoutMark, mark]
      · simp [start, mark]
      · simp [start, mark]
      · simp [start, mark]
      · simp [withoutMark]
    · refine ⟨[], ?_, ?_, ?_, ?_, fun front behind same => ?_⟩
      · simp [withoutMark, mark]
      · simp [start, mark]
      · simp [start, mark]
      · simp [start, mark]
      · cases front with
        | nil => rfl
        | cons d front =>
          have first : c = d := by simpa [withoutMark, mark] using congrArg List.head? same
          subst first
          simp [withoutMark, mark]

/-- A reader that has read on from the start of a text is within it. -/
theorem StandsIn.of_crosses (crosses : (start text).Crosses front reader) : reader.StandsIn text := by
  obtain ⟨mark, whole, consumed, place, bounded, unmarked⟩ := start_behind_mark text
  have ahead := crosses.ahead bounded
  have unread : withoutMark text = front ++ reader.unread :=
    (unread_start text).symm.trans crosses.unread
  have split : text = (mark ++ front) ++ reader.unread := by
    rw [whole, unread, List.append_assoc]
  have long : reader.consumed = (mark ++ front).length := by
    rw [crosses.consumed, consumed, List.length_append]
  refine ⟨?_, ?_, ?_⟩
  · rw [long, split, List.drop_left]
  · rw [long, split, List.take_left, unmarked front _ unread, crosses.position, place]
    exact after_placeBehind [] front
  · rw [Reader.pulled, long]
    have total := congrArg List.length split
    rw [List.length_append] at total
    omega

end Reader

/-! ## One call -/

namespace Scanner

variable {scanner after : Scanner} {item : Scanned} {text : List Char}

/-- A call that answers an item passes over a gap and over the slice that the item is read from. -/
theorem crosses_of_next (read : scanner.next = (some item, after)) :
    ∃ gap slice, scanner.reader.Crosses (gap ++ slice) after.reader ∧
      IsGap (scanner.reader.position.column = 1) gap (slice ++ after.reader.unread) ∧
      slice ≠ [] ∧ ReadFrom item slice ∧ placeOf item = scanner.reader.position.after gap := by
  obtain ⟨-, c, rest, reader, unread, scanned, rfl⟩ := scan_of_next read
  obtain ⟨gap, skipped, isGap⟩ := scanner.reader.crosses_skipGap
  obtain ⟨slice, crosses, isRead⟩ := Reader.slices_scan unread scanned
  refine ⟨gap, slice, skipped.trans crosses, ?_, ?_, isRead, ?_⟩
  · rwa [← crosses.unread]
  · rintro rfl
    have shorter := (Reader.advances_scan unread scanned).length_lt
    rw [crosses.unread, List.nil_append] at shorter
    exact Nat.lt_irrefl _ shorter
  · rw [Reader.place_scan unread scanned, skipped.position]

/-- A call that finds nothing is the last that reads. -/
theorem crosses_of_next_none (read : scanner.next = (none, after)) :
    (∃ front, scanner.reader.Crosses front after.reader) ∧ after.finished = true := by
  obtain ⟨gap, skipped, -⟩ := scanner.reader.crosses_skipGap
  simp only [next] at read
  split at read
  · next finished =>
    obtain ⟨-, rfl⟩ := Prod.mk.inj read
    exact ⟨⟨[], .refl _⟩, finished⟩
  · split at read
    · obtain ⟨-, rfl⟩ := Prod.mk.inj read
      exact ⟨⟨gap, skipped⟩, rfl⟩
    · split at read
      · obtain ⟨-, rfl⟩ := Prod.mk.inj read
        exact ⟨⟨_, skipped.trans (Reader.crosses_name _)⟩, rfl⟩
      · cases read
      · cases read

theorem next_of_finished (finished : scanner.finished = true) : scanner.next = (none, scanner) := by
  simp only [next, finished, ↓reduceIte]

/-! ## Any number of calls -/

/-- The scanner of a text after so many calls. -/
def called (text : List Char) : Nat → Scanner
  | 0 => .start text
  | calls + 1 => (called text calls).next.2

/-- What the call after so many calls answers. -/
def answer (text : List Char) (calls : Nat) : Option Scanned := (called text calls).next.1

/-- The items that so many calls answer. -/
def answered (text : List Char) (calls : Nat) : List Scanned :=
  (List.range calls).filterMap (answer text)

theorem next_called (text : List Char) (calls : Nat) :
    (called text calls).next = (answer text calls, called text (calls + 1)) := rfl

theorem crosses_called (text : List Char) (calls : Nat) :
    ∃ front, (Reader.start text).Crosses front (called text calls).reader := by
  induction calls with
  | zero => exact ⟨[], .refl _⟩
  | succ calls ih =>
    obtain ⟨front, crosses⟩ := ih
    have read := next_called text calls
    cases found : answer text calls with
    | none =>
      rw [found] at read
      obtain ⟨⟨more, further⟩, -⟩ := crosses_of_next_none read
      exact ⟨_, crosses.trans further⟩
    | some item =>
      rw [found] at read
      obtain ⟨gap, slice, further, -⟩ := crosses_of_next read
      exact ⟨_, crosses.trans further⟩

/-- The items so far stand one behind the other and in front of the reader, and there are no more of
them than characters that were read. -/
theorem answered_spec (text : List Char) (calls : Nat) :
    (answered text calls).Pairwise (fun first second => placeOf first < placeOf second) ∧
    (∀ item ∈ answered text calls, placeOf item < (called text calls).reader.position) ∧
    (answered text calls).length + (called text calls).reader.unread.length ≤ text.length := by
  induction calls with
  | zero =>
    refine ⟨.nil, fun _ member => absurd member List.not_mem_nil, ?_⟩
    rw [answered, List.range_zero, List.filterMap_nil, List.length_nil, Nat.zero_add]
    exact Reader.length_unread_start text
  | succ calls ih =>
    obtain ⟨sorted, behind, few⟩ := ih
    have read := next_called text calls
    cases found : answer text calls with
    | none =>
      have same : answered text (calls + 1) = answered text calls := by
        simp [answered, List.range_succ, found]
      rw [found] at read
      obtain ⟨⟨more, further⟩, -⟩ := crosses_of_next_none read
      have shorter := further.passes.suffix.length_le
      rw [same]
      exact ⟨sorted, fun item member => (behind item member).trans_le further.passes.le, by omega⟩
    | some item =>
      have more : answered text (calls + 1) = answered text calls ++ [item] := by
        simp [answered, List.range_succ, found]
      rw [found] at read
      obtain ⟨reached, passed⟩ := place_of_next read
      have shorter := (next_some read).2.1.length_lt
      rw [more, List.length_append, List.length_singleton]
      refine ⟨List.pairwise_append.mpr ⟨sorted, List.pairwise_singleton _ _, ?_⟩, ?_, by omega⟩
      · intro first member second last
        obtain rfl := List.mem_singleton.mp last
        exact (behind first member).trans_le reached
      · intro other member
        cases List.mem_append.mp member with
        | inl earlier => exact ((behind other earlier).trans_le reached).trans passed
        | inr last =>
          obtain rfl := List.mem_singleton.mp last
          exact passed

/-- Behind the call that finds nothing every call finds nothing. -/
theorem answer_none_of_le {text : List Char} {calls later : Nat} (ended : answer text calls = none)
    (le : calls ≤ later) : answer text later = none := by
  have read := next_called text calls
  rw [ended] at read
  have stays (more : Nat) : (called text (calls + 1 + more)).finished = true := by
    induction more with
    | zero => exact (crosses_of_next_none read).2
    | succ more ih =>
      have same := next_called text (calls + 1 + more)
      rw [next_of_finished ih] at same
      rw [← Nat.add_assoc, ← (Prod.mk.inj same).2]
      exact ih
  cases Nat.eq_or_lt_of_le le with
  | inl same => exact same ▸ ended
  | inr lt =>
    obtain ⟨more, rfl⟩ := Nat.exists_eq_add_of_le (Nat.succ_le_of_lt lt)
    exact congrArg Prod.fst (next_of_finished (stays more))

/-- After any number of calls, also where literals were given up, the scanner stands where the text
that it has consumed leads to. The items so far stand one behind the other, and there are no more of
them than characters. The next call answers an item, which stands at the first character of its slice
and leaves fewer characters unread, or it finds nothing, as does every call behind it. -/
theorem called_progress (text : List Char) (calls : Nat) :
    (called text calls).reader.StandsIn text ∧
    (∀ item, answer text calls = some item →
      (∃ gap slice,
        (called text calls).reader.unread =
          gap ++ slice ++ (called text (calls + 1)).reader.unread ∧
        IsGap ((called text calls).reader.position.column = 1) gap
          (slice ++ (called text (calls + 1)).reader.unread) ∧
        ReadFrom item slice ∧
        placeOf item = placeBehind
          (withoutMark (text.take (called text calls).reader.consumed) ++ gap)) ∧
      (called text (calls + 1)).reader.unread.length < (called text calls).reader.unread.length) ∧
    (answered text calls).Pairwise (fun first second => placeOf first < placeOf second) ∧
    (answered text calls).length ≤ text.length ∧
    (answer text calls = none → ∀ later, calls ≤ later → answer text later = none) := by
  obtain ⟨front, reached⟩ := crosses_called text calls
  have within := Reader.StandsIn.of_crosses reached
  obtain ⟨sorted, -, few⟩ := answered_spec text calls
  refine ⟨within, fun item found => ?_, sorted, (Nat.le_add_right ..).trans few,
    fun ended later => answer_none_of_le ended⟩
  have read := next_called text calls
  rw [found] at read
  obtain ⟨gap, slice, crosses, isGap, nonempty, isRead, place⟩ := crosses_of_next read
  refine ⟨⟨gap, slice, crosses.unread, isGap, isRead, ?_⟩, (next_some read).2.1.length_lt⟩
  rw [place, within.position, after_placeBehind]

/-- The string without its end is given up, and its text is read again behind the quote. -/
example : (answered "\"a\n%".toList 5).map placeOf = [⟨1, 1⟩, ⟨1, 2⟩, ⟨2, 1⟩] := by decide +kernel

end Scanner

end SigilScript
