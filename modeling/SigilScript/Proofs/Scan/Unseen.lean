import SigilScript.Proofs.Scan.Calls
import SigilScript.Proofs.Scan.Items

/-! # Ends of a text that were not seen

As long as nothing of the end of a text was pulled, another text with another end is scanned just
so: the same gaps, the same items in the same places, and as many characters pulled. What a scanner
has pulled it had pulled no sooner than it needed it, so the end that a later call did not see no
earlier one saw.
-/

namespace SigilScript

variable {front rest : List Char}

namespace Reader

variable {rest' : List Char} {reader other : Reader}

/-- What ends a gap was looked at, and behind an equals sign that opens a line one character more.
-/
theorem seen_skipGap {skipped : Reader}
    (behind : reader.skip (Gap.length .spaces (reader.position.column = 1) reader.unread) = skipped)
    (spares : reader.skipGap.Spares rest rest' true) :
    1 + rest.length ≤ skipped.unread.length ∧
      ((skipped.position.column = 1 && skipped.peek? 0 = some '=') = true →
        2 + rest.length ≤ skipped.unread.length) := by
  simp only [skipGap, behind] at spares
  split at spares
  · next line =>
    have seen := spares.looked.resolve_left fun parted => Bool.false_ne_true parted.2.symm
    exact ⟨by omega, fun _ => seen⟩
  · next line =>
    exact ⟨spares.looked.resolve_left (fun parted => Bool.false_ne_true parted.2.symm),
      fun equals => absurd equals line⟩

theorem inside_skipGap (spares : reader.skipGap.Spares rest rest' true) :
    rest.length < reader.skipGap.unread.length := by
  have one := (seen_skipGap rfl spares).1
  have same : reader.skipGap.unread =
      (reader.skip (Gap.length .spaces (reader.position.column = 1) reader.unread)).unread := by
    simp only [skipGap]
    split <;> rfl
  rw [same]
  omega

theorem Twin.skipGap (twin : Twin true rest rest' reader other)
    (spares : reader.skipGap.Spares rest rest' true) :
    Twin true rest rest' reader.skipGap other.skipGap := by
  have column : other.position.column = reader.position.column := congrArg _ twin.position
  obtain ⟨one, two⟩ := seen_skipGap rfl spares
  have same : Gap.length .spaces (other.position.column = 1) other.unread =
      Gap.length .spaces (reader.position.column = 1) reader.unread := by
    obtain ⟨front, unread, unread'⟩ := twin.text
    simp only [Reader.skip, Reader.peek?, unread, List.length_drop, List.length_append,
      List.getElem?_drop, Nat.add_zero] at one two
    rw [column, unread', unread]
    refine Gap.length_exchange reader.position rest' (fun _ => of_decide_eq_true) (by omega)
      fun line equals => ?_
    rw [List.take_append_of_le_length (by omega), List.getElem?_append_left (by omega), line,
      equals] at two
    have seen := two rfl
    omega
  have fits : Gap.length .spaces (reader.position.column = 1) reader.unread + rest.length ≤
      reader.unread.length := by
    simp only [Reader.skip, List.length_drop] at one
    omega
  have skipped := twin.skip fits
  have place := skipped.position
  have next : (other.skip _).peek? 0 = (reader.skip _).peek? 0 := skipped.peek? (by omega)
  simp only [Reader.skipGap, same, place, next]
  split
  · next line => exact skipped.look fun _ => ⟨rfl, two line⟩
  · exact skipped.look fun _ => ⟨rfl, one⟩

end Reader

namespace Scanner

variable {rest' : List Char} {scanner other : Scanner}

/-- Two scanners in the same state, before texts whose ends differ. -/
structure Twin (rest rest' : List Char) (scanner other : Scanner) : Prop where
  reader : Reader.Twin true rest rest' scanner.reader other.reader
  context : other.context = scanner.context
  finished : other.finished = scanner.finished

/-- What a call of a running scanner does. -/
inductive NextCase (scanner : Scanner) : Option Scanned × Scanner → Prop where
  | ended (unread : scanner.reader.skipGap.unread = []) :
    NextCase scanner (none, ⟨scanner.reader.skipGap, scanner.context, true⟩)
  | endWord {c : Char} {rest : List Char} (unread : scanner.reader.skipGap.unread = c :: rest)
    (scanned : scanner.reader.skipGap.scan scanner.context c = none) :
    NextCase scanner (none, ⟨scanner.reader.skipGap.name.2, scanner.context, true⟩)
  | item {c : Char} {rest : List Char} {item : Scanned} {reader : Reader}
    (unread : scanner.reader.skipGap.unread = c :: rest)
    (scanned : scanner.reader.skipGap.scan scanner.context c = some (item, reader)) :
    NextCase scanner (some item, ⟨reader, contextBehind scanner.context item, false⟩)

theorem next_of_endWord (running : scanner.finished = false) {c : Char} {rest : List Char}
    (unread : scanner.reader.skipGap.unread = c :: rest)
    (scanned : scanner.reader.skipGap.scan scanner.context c = none) :
    scanner.next = (none, ⟨scanner.reader.skipGap.name.2, scanner.context, true⟩) := by
  simp [next, running, unread, scanned, Reader.afterEndWord]

theorem next_cases (running : scanner.finished = false) : NextCase scanner scanner.next := by
  rcases unread : scanner.reader.skipGap.unread with _ | ⟨c, rest⟩
  · have read : scanner.next = (none, ⟨scanner.reader.skipGap, scanner.context, true⟩) := by
      simp [next, running, unread]
    exact read ▸ .ended unread
  · rcases scanned : scanner.reader.skipGap.scan scanner.context c with _ | ⟨item, reader⟩
    · exact next_of_endWord running unread scanned ▸ .endWord unread scanned
    · exact next_of_scan running unread scanned ▸ .item unread scanned

theorem NextCase.leads {answer : Option Scanned × Scanner} (found : NextCase scanner answer) :
    scanner.reader.skipGap.Leads answer.2.reader := by
  cases found with
  | ended => exact .refl _
  | endWord => exact Reader.Steps.refl.name.leads
  | item unread scanned => exact (Reader.spends_scan unread scanned).leads

/-- A call that does not see the end answers the same whatever the end is, and pulls as much. -/
theorem next_unseen (twin : Twin rest rest' scanner other)
    (spares : scanner.next.2.reader.Spares rest rest' true) :
    other.next.1 = scanner.next.1 ∧ Twin rest rest' scanner.next.2 other.next.2 := by
  cases finished : scanner.finished with
  | true =>
    rw [next_of_finished finished, next_of_finished (twin.finished.trans finished)]
    exact ⟨rfl, twin⟩
  | false =>
    have running := twin.finished.trans finished
    have found := next_cases finished
    generalize scanner.next = answer at found spares
    have kept := spares.before found.leads
    have gap := twin.reader.skipGap kept
    have inside := Reader.inside_skipGap kept
    have next {c : Char} {more : List Char} (unread : scanner.reader.skipGap.unread = c :: more) :
        ∃ more', other.reader.skipGap.unread = c :: more' := by
      obtain ⟨front, same, same'⟩ := gap.text
      rcases front with _ | ⟨d, front⟩
      · rw [same] at inside
        exact absurd inside (Nat.lt_irrefl _)
      · obtain ⟨rfl, -⟩ := List.cons.inj (same.symm.trans unread)
        exact ⟨_, same'⟩
    cases found with
    | ended unread =>
      rw [unread] at inside
      exact absurd inside (Nat.not_lt_zero _)
    | @endWord c _ unread scanned =>
      obtain ⟨word, same⟩ := Reader.scan_of_none scanned
      obtain ⟨name, behind⟩ := gap.name spares
      have ends := Reader.word_none word
      rw [← name] at ends
      obtain ⟨more', unread'⟩ := next unread
      have scanned' : other.reader.skipGap.scan other.context c = none := by
        rw [twin.context, same]
        exact Reader.word_of_end ends
      rw [next_of_endWord running unread' scanned']
      exact ⟨rfl, behind, twin.context, rfl⟩
    | @item c _ item _ unread scanned =>
      obtain ⟨more', unread'⟩ := next unread
      obtain ⟨⟨item', reader'⟩, scanned', content, behind⟩ :=
        gap.scan scanner.context unread inside _ scanned spares nofun
      have place : placeOf item' = placeOf item :=
        (Reader.place_scan unread' scanned').trans
          (gap.position.trans (Reader.place_scan unread scanned).symm)
      obtain rfl := eq_of_gist content place
      rw [← twin.context] at scanned'
      rw [next_of_scan running unread' scanned', twin.context]
      exact ⟨rfl, behind, rfl, rfl⟩

/-! ## Any number of calls -/

theorem leads_next (scanner : Scanner) : scanner.reader.Leads scanner.next.2.reader := by
  cases finished : scanner.finished with
  | true =>
    rw [next_of_finished finished]
    exact .refl _
  | false =>
    exact scanner.reader.steps_skipGap.leads.trans (next_cases finished).leads

/-- A reader that starts a text has seen its first character. -/
theorem twin_start (spares : (Reader.start (front ++ rest)).Spares rest rest' true) :
    Twin rest rest' (.start (front ++ rest)) (.start (front ++ rest')) := by
  cases spares with
  | unseen unended within =>
    cases front with
    | nil =>
      cases rest with
      | nil => contradiction
      | cons c rest =>
        by_cases mark : c = '\ufeff'
        · simp only [List.nil_append, Reader.start, if_pos mark, List.length_cons] at within
          omega
        · simp only [List.nil_append, Reader.start, if_neg mark, List.length_cons] at within
          omega
    | cons c front =>
      refine ⟨⟨?_, fun _ => ?_⟩, rfl, rfl⟩
      · by_cases mark : c = '\ufeff'
        · exact ⟨front, by simp [start, Reader.start, mark], by simp [start, Reader.start, mark]⟩
        · exact ⟨c :: front, by simp [start, Reader.start, mark],
            by simp [start, Reader.start, mark]⟩
      · by_cases mark : c = '\ufeff'
        · simp [start, Reader.start, mark]
        · simp [start, Reader.start, mark]

/-- Calls that do not see the end answer the same whatever the end is, and pull as much. -/
theorem called_unseen {calls : Nat}
    (spares : (called (front ++ rest) calls).reader.Spares rest rest' true) :
    Twin rest rest' (called (front ++ rest) calls) (called (front ++ rest') calls) ∧
      ∀ earlier < calls, answer (front ++ rest') earlier = answer (front ++ rest) earlier := by
  induction calls with
  | zero => exact ⟨twin_start spares, fun _ none => absurd none (Nat.not_lt_zero _)⟩
  | succ calls ih =>
    obtain ⟨twin, same⟩ := ih (spares.before (leads_next _))
    obtain ⟨answered, further⟩ := next_unseen twin spares
    refine ⟨further, fun earlier before => ?_⟩
    rcases Nat.lt_succ_iff_lt_or_eq.mp before with before | rfl
    · exact same earlier before
    · exact answered

/-- What has pulled no more than the beginning of a text, and has not seen the end, spares what
stands behind that beginning. -/
theorem spares_of_pulled {calls : Nat} (rest' : List Char)
    (unended : (called (front ++ rest) calls).reader.ended = false)
    (few : (called (front ++ rest) calls).reader.pulled ≤ front.length) :
    (called (front ++ rest) calls).reader.Spares rest rest' true := by
  have unread := (called_progress (front ++ rest) calls).1.unread
  refine .unseen unended ?_
  rw [Reader.pulled] at few
  rw [unread, List.length_drop, List.length_append]
  omega

end Scanner

end SigilScript
