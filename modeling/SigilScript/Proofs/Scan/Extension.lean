import SigilScript.Proofs.Node.Moved
import SigilScript.Proofs.Scan.Calls
import SigilScript.Proofs.Scan.Items

/-! # Reading with more text behind and more lines before

Two readers stand at the same text, one of them further down, and with more text behind it. Where
what stands behind goes on no token, both read the same tokens: what one of them reads, the other
one reads as many lines further down. Without a text behind, the same holds of every item, faults
included.
-/

namespace SigilScript

namespace Position

/-- The place in the same column, `count` lines further down. -/
def lower (count : Nat) (position : Position) : Position := ⟨position.line + count, position.column⟩

theorem lower_next (count : Nat) (position : Position) (c : Char) :
    (position.lower count).next c = (position.next c).lower count := by
  simp only [next, lower]
  split
  · rw [Nat.add_right_comm]
  · rfl

theorem lower_after (count : Nat) (position : Position) (text : List Char) :
    (position.lower count).after text = (position.after text).lower count := by
  induction text generalizing position with
  | nil => rfl
  | cons c rest ih => exact (congrArg (after · rest) (lower_next count position c)).trans (ih _)

theorem lower_zero : lower 0 = id := rfl

end Position

/-- The same item in another place. -/
def moveScanned (move : Position → Position) : Scanned → Scanned
  | .error fault => .error (fault.moved move)
  | .ok token => .ok (token.moved move)

theorem moveScanned_id : moveScanned id = id := by
  funext item
  cases item <;> rfl

/-- An item that says the same, in a place that is moved, is the item moved. -/
theorem eq_moveScanned {move : Position → Position} {item item' : Scanned}
    (content : gistOf item' = gistOf item) (place : placeOf item' = move (placeOf item)) :
    item' = moveScanned move item := by
  refine eq_of_gist (content.trans ?_) (place.trans ?_)
  · cases item <;> rfl
  · cases item <;> rfl

/-- Where nothing stands behind, every item is told apart from it. -/
theorem told_nil (item : Scanned) : Told [] [] item := by
  cases item with
  | ok token => exact fun _ => rfl
  | error fault => exact ⟨rfl, rfl⟩

/-- Where a text ends behind it, every token is told apart from what may stand there instead. -/
theorem told_token (tail : List Char) (token : Token) : Told [] tail (.ok token) := fun _ => rfl

namespace Reader

variable {count : Nat} {tail : List Char} {reader further after : Reader}

/-- Two readers of the same text, one of them lower and with more text behind it. What reading has
cost does not matter. -/
structure Extends (count : Nat) (tail : List Char) (reader further : Reader) : Prop where
  unread : further.unread = reader.unread ++ tail
  position : further.position = reader.position.lower count

namespace Extends

variable (extended : reader.Extends count tail further)
include extended

theorem twin : Twin false [] tail reader further where
  text := ⟨reader.unread, (List.append_nil _).symm, extended.unread⟩
  cost unseen := absurd unseen Bool.false_ne_true

/-! ## Gaps -/

theorem look (seen seen' : Nat) : (reader.look seen).Extends count tail (further.look seen') :=
  ⟨extended.unread, extended.position⟩

theorem skip {taken : Nat} (fits : tail = [] ∨ taken ≤ reader.unread.length) :
    (reader.skip taken).Extends count tail (further.skip taken) := by
  have same : further.unread.take taken = reader.unread.take taken ∧
      further.unread.drop taken = reader.unread.drop taken ++ tail := by
    rw [extended.unread]
    rcases fits with rfl | fits
    · simp only [List.append_nil, and_self]
    · exact ⟨List.take_append_of_le_length fits, List.drop_append_of_le_length fits⟩
  refine ⟨same.2, ?_⟩
  simp only [Reader.skip]
  rw [same.1, extended.position, Position.lower_after]

end Extends

/-- Behind a gap stands what its length leaves of the text. -/
theorem skipGap_eq (reader : Reader) :
    ∃ seen : Nat, reader.skipGap = (reader.skip (Gap.length .spaces
      (reader.position.column = 1) reader.unread)).look seen := by
  simp only [Reader.skipGap]
  split
  · exact ⟨2, rfl⟩
  · exact ⟨1, rfl⟩

/-- A gap that ends before the text does is the same in both texts. -/
theorem Extends.skipGap (extended : reader.Extends count tail further) (parts : Parts tail)
    (inside : tail = [] ∨ reader.skipGap.unread ≠ []) :
    reader.skipGap.Extends count tail further.skipGap := by
  obtain ⟨seen, gap⟩ := reader.skipGap_eq
  obtain ⟨seen', gap'⟩ := further.skipGap_eq
  have column : further.position.column = reader.position.column := by
    rw [extended.position]
    rfl
  have stops : tail = [] ∨ Gap.length .spaces (reader.position.column = 1) reader.unread <
      reader.unread.length := by
    refine inside.imp_right fun nonempty => ?_
    rw [gap] at nonempty
    exact Nat.lt_of_not_le fun past => nonempty (List.drop_eq_nil_of_le past)
  have same : Gap.length .spaces (further.position.column = 1) further.unread =
      Gap.length .spaces (reader.position.column = 1) reader.unread := by
    rw [column, extended.unread]
    obtain rfl | within := stops
    · rw [List.append_nil]
    · have within : Gap.length .spaces (reader.position.column = 1) (reader.unread ++ []) <
          reader.unread.length := by rwa [List.append_nil]
      have exchanged := Gap.length_exchange reader.position tail (fun _ => of_decide_eq_true) within
        fun _ _ => .inr ⟨parts_nil, parts⟩
      rwa [List.append_nil] at exchanged
  rw [gap, gap', same]
  exact (extended.skip (stops.imp_right Nat.le_of_lt)).look seen seen'

/-- Behind a newline the same gap begins as at the start of a text. -/
theorem skipGap_newline {text : List Char} (unread : further.unread = '\n' :: text)
    (start : reader.unread = text) (place : reader.position = .start) :
    reader.skipGap.Extends further.position.line [] further.skipGap := by
  obtain ⟨seen, gap⟩ := reader.skipGap_eq
  obtain ⟨seen', gap'⟩ := further.skipGap_eq
  have line : Gap.length .spaces (further.position.column = 1) ('\n' :: text) =
      Gap.length .spaces true text + 1 := Gap.length_space _ _ (by decide)
  have next : further.position.next '\n' = Position.start.lower further.position.line := by
    simp only [Position.next, Position.lower, Position.start, ↓reduceIte, Nat.add_comm]
  have first : decide (reader.position.column = 1) = true := by
    rw [place]
    rfl
  rw [start, first] at gap
  rw [unread, line] at gap'
  rw [gap, gap']
  constructor
  · simp only [Reader.look, Reader.skip, unread, start, List.drop_succ_cons, List.append_nil]
  · simp only [Reader.look, Reader.skip, unread, start, place, List.take_succ_cons]
    rw [← Position.lower_after, ← next]
    rfl

/-! ## Items -/

/-- Readers that pass over texts and leave the same behind have passed over the same text. -/
theorem Extends.crosses (extended : reader.Extends count tail further) {after after' : Reader}
    {text text' : List Char} (crosses : reader.Crosses text after)
    (crosses' : further.Crosses text' after') (behind : after'.unread = after.unread ++ tail) :
    after.Extends count tail after' := by
  have unread := crosses'.unread
  rw [extended.unread, crosses.unread, behind, List.append_assoc] at unread
  obtain rfl := List.append_cancel_right unread
  refine ⟨behind, ?_⟩
  rw [crosses'.position, extended.position, crosses.position, Position.lower_after]

/-- An item is read from both texts, if it is told apart from what stands behind. -/
theorem Extends.scan (extended : reader.Extends count tail further) (parts : Parts tail)
    {context : Context} {c : Char} {rest : List Char} {item : Scanned}
    (unread : reader.unread = c :: rest) (read : reader.scan context c = some (item, after))
    (told : Told [] tail item) :
    ∃ after', further.scan context c = some (moveScanned (Position.lower count) item, after') ∧
      after.Extends count tail after' := by
  have unread' : further.unread = c :: (rest ++ tail) := by rw [extended.unread, unread]; rfl
  have inside : ([] : List Char).length < reader.unread.length := by
    rw [unread]
    exact Nat.succ_pos _
  obtain ⟨⟨item', after'⟩, read', content, ⟨front, behind, behind'⟩, -⟩ :=
    extended.twin.scan context unread inside _ read (.parted parts (Nat.zero_le _)) fun _ => told
  have place : placeOf item' = (placeOf item).lower count :=
    (place_scan unread' read').trans
      (extended.position.trans (congrArg _ (place_scan unread read).symm))
  obtain rfl := eq_moveScanned content place
  obtain ⟨text, crosses, -⟩ := slices_scan unread read
  obtain ⟨text', crosses', -⟩ := slices_scan unread' read'
  refine ⟨after', read', extended.crosses crosses crosses' ?_⟩
  rw [List.append_nil] at behind
  rw [behind', behind]

/-- Where nothing is read, nothing is read further down. -/
theorem Extends.scan_none (extended : reader.Extends count [] further) {context : Context}
    {c : Char} (read : reader.scan context c = none) : further.scan context c = none := by
  obtain ⟨word, same⟩ := scan_of_none read
  have name := (extended.twin.name (.parted parts_nil (Nat.zero_le _))).1
  rw [same]
  refine word_of_end ?_
  rw [name]
  exact word_none word

end Reader

end SigilScript
