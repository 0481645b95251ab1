import SigilScript.Scan.Gap
import SigilScript.Scan.Number

/-! # What a reader passes over

A reader that reads a text stands behind it, at the place the text leads to, and has consumed as many
characters as the text has. What has been looked at is unread all the same, so looking ahead passes
over nothing, and neither does a literal that is given up because its end is missing.
-/

namespace SigilScript

theorem Position.after_append (position : Position) (first second : List Char) :
    position.after (first ++ second) = (position.after first).after second :=
  List.foldl_append

/-! ## The texts of names and versions -/

section Texts

variable {c : Char} {inRun : Bool} (text : List Char)

theorem nameText_char (accepted : isNameChar c = true) :
    nameText (c :: text) = c :: nameText text := by
  rw [nameText, if_pos accepted]
  rintro d more rfl
  exact absurd accepted (by decide)

/-- Only a colon may join what is no character of a name. -/
theorem nameText_end (rejected : isNameChar c = false) (noColon : c ≠ ':') :
    nameText (c :: text) = [] := by
  rw [nameText, rejected, if_neg Bool.false_ne_true]
  rintro d more rfl
  exact absurd rfl noColon

theorem versionText_char (accepted : (inRun && isDigitOrUnderscore c) = true) :
    versionText inRun (c :: text) = c :: versionText inRun text := by
  rw [versionText, if_pos accepted]
  rintro d more rfl
  rw [show isDigitOrUnderscore '.' = false by decide, Bool.and_false] at accepted
  contradiction

/-- Only a dot may join what goes on in no run of digits. -/
theorem versionText_end (rejected : (inRun && isDigitOrUnderscore c) = false) (noDot : c ≠ '.') :
    versionText inRun (c :: text) = [] := by
  rw [versionText, rejected, if_neg Bool.false_ne_true]
  rintro d more rfl
  exact absurd rfl noDot

end Texts

theorem nameText_begins (text : List Char) : nameText text <+: text := by
  fun_induction nameText text with
  | case1 c rest starts ih => simpa using ih
  | case2 c rest starts => exact List.nil_prefix
  | case3 c rest notJoined goesOn ih => simpa using ih
  | case4 c rest notJoined ends => exact List.nil_prefix
  | case5 => exact List.nil_prefix

theorem versionText_begins (inRun : Bool) (text : List Char) : versionText inRun text <+: text := by
  fun_induction versionText inRun text with
  | case1 inRun c rest digit ih => simpa using ih
  | case2 inRun c rest noDigit => exact List.nil_prefix
  | case3 inRun c rest noPart goesOn ih => simpa using ih
  | case4 inRun c rest noPart ends => exact List.nil_prefix
  | case5 => exact List.nil_prefix

namespace Reader

/-- A reader passes over exactly this text. -/
structure Crosses (reader : Reader) (text : List Char) (after : Reader) : Prop where
  unread : reader.unread = text ++ after.unread
  position : after.position = reader.position.after text
  consumed : after.consumed = reader.consumed + text.length
  /-- What was pulled is still unread. -/
  ahead : reader.ahead ≤ reader.unread.length → after.ahead ≤ after.unread.length

variable {reader between after : Reader} {first second text : List Char}

namespace Crosses

theorem refl (reader : Reader) : reader.Crosses [] reader := ⟨rfl, rfl, rfl, id⟩

theorem trans (before : reader.Crosses first between) (behind : between.Crosses second after) :
    reader.Crosses (first ++ second) after where
  unread := by rw [before.unread, behind.unread, List.append_assoc]
  position := by rw [behind.position, before.position, Position.after_append]
  consumed := by rw [behind.consumed, before.consumed, List.length_append, Nat.add_assoc]
  ahead bounded := behind.ahead (before.ahead bounded)

theorem look (crosses : reader.Crosses text after) (count : Nat) :
    reader.Crosses text (after.look count) where
  unread := crosses.unread
  position := crosses.position
  consumed := crosses.consumed
  ahead bounded := by
    have held := crosses.ahead bounded
    simp only [Reader.look, List.length_take]
    omega

theorem exhaust (crosses : reader.Crosses text after) : reader.Crosses text after.exhaust where
  unread := crosses.unread
  position := crosses.position
  consumed := crosses.consumed
  ahead _ := Nat.le_refl _

end Crosses

/-- Looking ahead passes over nothing. -/
theorem crosses_look (count : Nat) (reader : Reader) : reader.Crosses [] (reader.look count) :=
  (Crosses.refl reader).look count

/-- Skipping passes over what comes next, as far as there is so much. -/
theorem crosses_take (count : Nat) (reader : Reader) :
    reader.Crosses (reader.unread.take count) (reader.skip count) where
  unread := (List.take_append_drop ..).symm
  position := rfl
  consumed := rfl
  ahead bounded := by
    have whole := congrArg List.length (List.take_append_drop count reader.unread)
    rw [List.length_append] at whole
    simp only [skip]
    omega

/-- Skipping the length of a text that comes next passes over it. -/
theorem crosses_skip {rest : List Char} (next : reader.unread = text ++ rest) :
    reader.Crosses text (reader.skip text.length) := by
  have crosses := crosses_take text.length reader
  rwa [next, List.take_left] at crosses

theorem crosses_run (accepts : Char → Bool) (reader : Reader) :
    reader.Crosses (reader.run accepts).1 (reader.run accepts).2 :=
  (crosses_skip (List.takeWhile_append_dropWhile).symm).look 1

/-! ## Numbers -/

theorem crosses_fraction (reader : Reader) :
    reader.Crosses reader.fraction.1 reader.fraction.2 := by
  simp only [fraction]
  split
  · next dot =>
    obtain ⟨rest, next⟩ : ∃ rest, reader.unread = '.' :: rest := by
      rcases unread : reader.unread with _ | ⟨c, rest⟩
      · simp [peek?, unread] at dot
      · simp only [peek?, unread, List.getElem?_cons_zero, Option.some.injEq] at dot
        exact ⟨rest, by rw [dot]⟩
    split
    · have skipped : (reader.look 2).Crosses ['.'] ((reader.look 2).skip 1) := crosses_skip next
      exact (crosses_look 2 reader).trans (skipped.trans (crosses_run _ _))
    · exact crosses_look 2 reader
  · exact Crosses.refl reader

/-- The sign of an exponent, if there is one, comes next. -/
theorem sign_prefix (text : List Char) :
    ∃ rest, text = (text.take 1).filter (fun c => c = '+' || c = '-') ++ rest := by
  cases text with
  | nil => exact ⟨[], rfl⟩
  | cons c rest =>
    simp only [List.take_succ_cons, List.take_zero, List.filter_cons, List.filter_nil]
    split
    · exact ⟨rest, rfl⟩
    · exact ⟨c :: rest, rfl⟩

theorem crosses_exponent (reader : Reader) :
    reader.Crosses reader.exponent.1 reader.exponent.2 := by
  simp only [exponent]
  split
  · next letter rest unread =>
    split
    · obtain ⟨digits, same⟩ := sign_prefix rest
      generalize (rest.take 1).filter (fun c => c = '+' || c = '-') = sign at same ⊢
      split
      · have next : (reader.look (sign.length + 2)).unread = letter :: sign ++ digits := by
          rw [List.cons_append, ← same]
          exact unread
        exact (crosses_look _ reader).trans ((crosses_skip next).trans (crosses_run _ _))
      · exact crosses_look _ reader
    · exact Crosses.refl reader
  · exact Crosses.refl reader

theorem opensRadix_cons {text : List Char} (opens : opensRadix text = true) :
    ∃ rest, text = text.take 2 ++ rest ∧ (text.take 2).length = 2 := by
  rcases text with _ | ⟨c, _ | ⟨d, rest⟩⟩
  · contradiction
  · simp [opensRadix] at opens
  · exact ⟨rest, rfl, rfl⟩

theorem crosses_number (reader : Reader) : reader.Crosses reader.number.1 reader.number.2 := by
  have looked : reader.Crosses [] (if reader.peek? 0 = some '0' then reader.look 2 else reader) := by
    split
    · exact crosses_look 2 reader
    · exact Crosses.refl reader
  simp only [number]
  generalize (if reader.peek? 0 = some '0' then reader.look 2 else reader) = start at looked
  split
  · next opens =>
    obtain ⟨rest, next, two⟩ := opensRadix_cons opens
    have skipped : start.Crosses (reader.unread.take 2) (start.skip 2) := by
      have front : start.unread = reader.unread.take 2 ++ rest := looked.unread.symm.trans next
      have skipped := crosses_skip front
      rwa [two] at skipped
    exact looked.trans (skipped.trans (crosses_run _ _))
  · have whole := crosses_run isDigitOrUnderscore start
    exact looked.trans ((whole.trans (crosses_fraction _)).trans (crosses_exponent _))

/-! ## Names and versions -/

theorem crosses_name (reader : Reader) : reader.Crosses reader.name.1 reader.name.2 := by
  obtain ⟨rest, next⟩ := nameText_begins reader.unread
  exact (crosses_skip next.symm).look _

theorem crosses_versionParts (reader : Reader) :
    reader.Crosses reader.versionParts.1 reader.versionParts.2 := by
  obtain ⟨rest, next⟩ := versionText_begins false reader.unread
  exact (crosses_skip next.symm).look _

end Reader

end SigilScript
