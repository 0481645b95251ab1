import Mathlib.Data.Prod.Lex
import SigilScript.Proofs.Scan.Run

/-! # Places in the order of the text

Places are ordered as the text is read: by line, and within a line by column. Every item of a scan
stands at its first character, so the items of a scan stand one behind the other.
-/

namespace SigilScript

namespace Position

instance : LinearOrder Position :=
  LinearOrder.lift' (fun position : Position => toLex (position.line, position.column)) <| by
    rintro ⟨line, column⟩ ⟨line', column'⟩ same
    simpa using same

theorem lt_iff {first second : Position} : first < second ↔
    first.line < second.line ∨ first.line = second.line ∧ first.column < second.column :=
  Prod.Lex.lt_iff

theorem lt_next (position : Position) (c : Char) : position < position.next c := by
  simp only [next]
  split
  · exact lt_iff.mpr (.inl (Nat.lt_succ_self _))
  · exact lt_iff.mpr (.inr ⟨rfl, Nat.lt_succ_self _⟩)

theorem le_after (position : Position) (text : List Char) : position ≤ position.after text := by
  induction text generalizing position with
  | nil => exact le_refl position
  | cons c rest ih => exact (position.lt_next c).le.trans (ih (position.next c))

theorem lt_after (position : Position) (c : Char) (text : List Char) :
    position < position.after (c :: text) :=
  (position.lt_next c).trans_le (le_after (position.next c) text)

end Position

/-- Where an item stands. -/
def placeOf : Scanned → Position
  | .ok token => token.position
  | .error fault => fault.position

namespace Reader

variable {reader between after : Reader}

theorem Passes.le (passes : reader.Passes after) : reader.position ≤ after.position := by
  obtain ⟨text, -, place⟩ := passes
  rw [place]
  exact reader.position.le_after text

theorem Advances.lt (advances : reader.Advances after) : reader.position < after.position := by
  obtain ⟨c, text, -, place⟩ := advances
  rw [place]
  exact reader.position.lt_after c text

/-! ## Where an item stands -/

theorem place_operator (reader : Reader) : placeOf reader.operator.1 = reader.position := by
  simp only [operator]
  split <;> rfl

theorem place_literal {opened : Reader} {cause : ScanCause} {body : Option Body}
    {scanned : List Char → Reader → Reading}
    (place : ∀ text after, placeOf (scanned text after).1 = reader.position) :
    placeOf (reader.literal opened cause body scanned).1 = reader.position := by
  cases body with
  | none => rfl
  | some body => exact place _ _

theorem place_plainWord {text : List Char} :
    placeOf (word.plainWord reader after text).1 = reader.position := by
  simp only [word.plainWord]
  split <;> rfl

theorem place_word {previous : Option Category} {reading : Reading}
    (read : reader.word previous = some reading) : placeOf reading.1 = reader.position := by
  cases word_cases read with
  | string => exact place_literal fun _ _ => rfl
  | words => exact place_literal fun _ _ => rfl
  | pattern => exact place_literal fun _ _ => rfl
  | plain => exact place_plainWord

theorem place_sigil {sigil : Sigil} {reading : Reading} (found : SigilCase reader sigil reading) :
    placeOf reading.1 = reader.position := by
  cases found with
  | operator => exact place_operator _
  | named | digits | spelled | fault => rfl

/-- An item stands where the reader stood that read it. -/
theorem place_scan {context : Context} {c : Char} {rest : List Char} {reading : Reading}
    (next : reader.unread = c :: rest) (read : reader.scan context c = some reading) :
    placeOf reading.1 = reader.position := by
  cases scan_cases read with
  | number | fraction => rfl
  | quoted => exact place_literal fun _ _ => rfl
  | word _ read => exact place_word read
  | sigil sigil spelled =>
    rw [spelled] at next
    exact place_sigil (sigil_cases next)
  | pattern => exact place_literal fun _ _ => rfl
  | operator | dot => exact place_operator _

end Reader

/-! ## The order of a scan -/

namespace Scanner

variable {scanner after : Scanner} {item : Scanned}

/-- An item stands at or behind the place where the call for it begins, and in front of the place
where it ends. -/
theorem place_of_next (read : scanner.next = (some item, after)) :
    scanner.reader.position ≤ placeOf item ∧ placeOf item < after.reader.position := by
  obtain ⟨-, c, rest, reader, unread, scanned, rfl⟩ := scan_of_next read
  rw [Reader.place_scan unread scanned]
  exact ⟨scanner.reader.passes_skipGap.le, (Reader.advances_scan unread scanned).lt⟩

/-- The items that remain stand one behind the other, from the place of the reader on. -/
theorem sorted_trace (calls : Nat) (scanner : Scanner) :
    ((scanner.trace calls).filterMap Prod.fst).Pairwise (fun first second =>
      placeOf first < placeOf second) ∧
    ∀ item ∈ (scanner.trace calls).filterMap Prod.fst, scanner.reader.position ≤ placeOf item := by
  induction calls generalizing scanner with
  | zero => exact ⟨.nil, fun _ member => absurd member List.not_mem_nil⟩
  | succ calls ih =>
    simp only [trace]
    rcases read : scanner.next with ⟨_ | item, after⟩
    · exact ⟨.nil, fun _ member => absurd member List.not_mem_nil⟩
    · obtain ⟨sorted, behind⟩ := ih after
      obtain ⟨reached, passed⟩ := place_of_next read
      simp only [List.filterMap_cons]
      refine ⟨List.pairwise_cons.mpr ⟨fun other member => ?_, sorted⟩, ?_⟩
      · exact passed.trans_le (behind other member)
      · intro other member
        cases member with
        | head => exact reached
        | tail _ member => exact reached.trans (passed.le.trans (behind other member))

end Scanner

/-- The items of a scan stand one behind the other. -/
theorem sorted_scan (text : List Char) :
    (scan text).Pairwise fun first second => placeOf first < placeOf second :=
  (Scanner.sorted_trace _ _).1

/-- The lexemes of a text without scan faults stand one behind the other. -/
theorem sorted_lexemes {text : List Char} {tokens : List Token}
    (scanned : scan text = tokens.map .ok) :
    (Context.start.lexemes tokens).Pairwise fun first second =>
      first.position < second.position := by
  have sorted := sorted_scan text
  rw [scanned, ← Context.start.map_token_lexemes tokens, List.map_map, List.pairwise_map] at sorted
  exact sorted

end SigilScript
