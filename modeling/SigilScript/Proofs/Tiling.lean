import SigilScript.Proofs.Scan.Calls
import SigilScript.Proofs.Scan.Composition

/-! # How tokens tile a text

A text without scan faults is made of gaps and of the slices that its tokens are read from, in
order, up to its end or to the word that ends the program. A token stands where its slice begins, and
unless it is a literal the slice is its text.
-/

namespace SigilScript

/-- How tokens tile what stands behind the beginning of a text. -/
inductive Tiled : List Char → List Char → List Token → Prop where
  /-- Behind the last token a gap goes on to the end, or to a word that ends the program. -/
  | ends {front gap rest : List Char} (isGap : IsGap ((placeBehind front).column = 1) gap rest)
    (atEnd : rest = [] ∨ isEndWord (String.ofList (nameText rest)) = true) :
    Tiled front (gap ++ rest) []
  | token {front gap slice rest : List Char} {token : Token} {tokens : List Token}
    (isGap : IsGap ((placeBehind front).column = 1) gap (slice ++ rest)) (nonempty : slice ≠ [])
    (isRead : ReadFrom (.ok token) slice) (begins : token.position = placeBehind (front ++ gap))
    (further : Tiled (front ++ gap ++ slice) rest tokens) :
    Tiled front (gap ++ slice ++ rest) (token :: tokens)

namespace Scanner

variable {scanner after : Scanner} {front : List Char} {tokens : List Token}

/-- Where a running scanner finds nothing there is a gap in front of the end. -/
theorem tiled_of_next_none (running : scanner.finished = false)
    (read : scanner.next = (none, after)) (place : scanner.reader.position = placeBehind front) :
    Tiled front scanner.reader.unread [] := by
  obtain ⟨gap, skipped, isGap⟩ := scanner.reader.crosses_skipGap
  rw [place] at isGap
  rw [skipped.unread]
  apply Tiled.ends isGap
  cases unread : scanner.reader.skipGap.unread with
  | nil => exact .inl rfl
  | cons c rest =>
    rw [← unread]
    exact .inr (Reader.scan_none (scan_of_next_none running read unread))

/-- The tokens that remain tile what is unread. -/
theorem tiled_of_remaining (running : scanner.finished = false)
    (place : scanner.reader.position = placeBehind front)
    (sound : scanner.remaining = tokens.map .ok) : Tiled front scanner.reader.unread tokens := by
  induction tokens generalizing scanner front with
  | nil =>
    rcases read : scanner.next with ⟨_ | item, after⟩
    · exact tiled_of_next_none running read place
    · rw [remaining_of_some read] at sound
      contradiction
  | cons token tokens ih =>
    obtain ⟨after, read, sound⟩ := next_of_remaining sound
    obtain ⟨gap, slice, crosses, isGap, nonempty, isRead, begins⟩ := crosses_of_next read
    have behind : after.reader.position = placeBehind (front ++ gap ++ slice) := by
      rw [crosses.position, place, after_placeBehind, List.append_assoc]
    rw [place] at isGap begins
    rw [crosses.unread]
    refine .token isGap nonempty isRead (begins.trans (after_placeBehind front gap)) ?_
    exact ih (next_some read).2.2 behind sound

end Scanner

/-- The tokens of a text that scans without fault tile it, behind the mark that may open it. -/
theorem tiled_tokenize {text : List Char} {tokens : List Token}
    (sound : tokenize text = .ok tokens) : Tiled [] (withoutMark text) tokens := by
  have remaining := scan_of_tokenize sound
  rw [scan_eq_remaining] at remaining
  rw [← Reader.unread_start]
  exact Scanner.tiled_of_remaining rfl (Reader.start_spec text).1 remaining

theorem tiled_tokenize_documented : ∃ (text : List Char) (tokens : List Token),
    text = "\ufeff$x = qw(a b); # c\n=pod\n\n=cut\n$#y ? .5 : m{a}i\n__END__ \"".toList ∧
    tokens.map Token.text = ["$x", "=", "a b", ";", "$#y", "?", ".5", ":", "a"] ∧
    tokenize text = .ok tokens ∧ Tiled [] (withoutMark text) tokens := by
  refine ⟨_, _, rfl, ?_, rfl, tiled_tokenize rfl⟩
  decide +kernel

end SigilScript
