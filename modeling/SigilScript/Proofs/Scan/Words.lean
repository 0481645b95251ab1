import SigilScript.Proofs.Scan.Spelling
import SigilScript.Proofs.Scan.Tokens

/-! # Words between other tokens

A word that is read as a name in front of a space is read so wherever no arrow stands before it and
what stands behind it parts it. What kind of name it is does not change how the text behind a fat
comma is read.
-/

namespace SigilScript

/-- Whether an item is a word that quotes nothing. -/
def isNameItem : Scanned → Bool
  | .ok token => token.kind = .identifier
  | .error _ => false

namespace Reader

variable {reader : Reader} {context : Context} {c : Char}

/-! ## Where names begin -/

theorem not_name_operator (reader : Reader) : isNameItem reader.operator.1 = false := by
  simp only [operator]
  split
  · simp only [TokenKind.ofOperator]
    split <;> rfl
  · rfl

theorem not_name_literal {opened : Reader} {cause : ScanCause} {body : Option Body}
    {scanned : List Char → Reader → Reading}
    (other : ∀ text after, isNameItem (scanned text after).1 = false) :
    isNameItem (reader.literal opened cause body scanned).1 = false := by
  cases body with
  | none => rfl
  | some body => exact other _ _

theorem not_name_sigil {sigil : Sigil} {reading : Reading}
    (found : SigilCase reader sigil reading) : isNameItem reading.1 = false := by
  cases found with
  | named | digits | fault => rfl
  | spelled _ isSigil => obtain rfl | rfl := isSigil <;> rfl
  | operator => exact not_name_operator _

/-- A word is read where a name begins. -/
theorem isNameStart_of_scan {rest : List Char} {reading : Reading}
    (unread : reader.unread = c :: rest) (read : reader.scan context c = some reading)
    (name : isNameItem reading.1 = true) : isNameStart c = true := by
  have never (other : isNameItem reading.1 = false) : isNameStart c = true :=
    absurd (name.symm.trans other) Bool.noConfusion
  cases scan_cases read with
  | number | fraction => exact never rfl
  | quoted => exact never (not_name_literal fun _ _ => rfl)
  | word starts => exact starts
  | sigil sigil spelled =>
    rw [spelled] at unread
    exact never (not_name_sigil (sigil_cases unread))
  | pattern => exact never (not_name_literal fun _ _ => rfl)
  | operator => exact never (not_name_operator _)
  | dot => exact never (not_name_operator _)

/-- What begins as a name is read after everything but an arrow as it is at the start. -/
theorem scan_name (starts : isNameStart c = true) (noArrow : context.previous ≠ some .arrow) :
    reader.scan context c = reader.scan .start c := by
  have same : reader.word context.previous = reader.word Context.start.previous := by
    have noArrow' : Context.start.previous ≠ some .arrow := nofun
    simp only [word, ne_eq, noArrow, noArrow', not_false_eq_true, decide_true]
  simp only [scan, starts, ↓reduceIte, same]

end Reader

/-- A word that is a token of its own where a space stands behind it. -/
def IsWord (word : List Char) : Prop :=
  tokenize (word ++ [' ']) = .ok [⟨.identifier, String.ofList word, .start⟩]

namespace IsWord

variable {word : List Char}

/-- Such a word is what its scan takes. -/
theorem scanned (isWord : IsWord word) :
    ∃ (c : Char) (more : List Char) (reader after : Reader), word = c :: more ∧
      reader.unread = c :: (more ++ after.unread) ∧
      reader.scan .start c =
        some (.ok ⟨.identifier, String.ofList word, .start⟩, after) := by
  have remaining := scan_of_tokenize isWord
  rw [scan_eq_remaining] at remaining
  obtain ⟨final, read, -⟩ := Scanner.next_of_remaining remaining
  obtain ⟨-, c, rest, after, unread, scanned, rfl⟩ := Scanner.scan_of_next read
  obtain ⟨slice, crosses, isRead⟩ := Reader.slices_scan unread scanned
  have same : slice = word := by
    cases isRead with
    | spelling => exact String.toList_ofList
    | literal opens => contradiction
  have behind := crosses.unread
  rw [same] at behind
  obtain ⟨more, spelled⟩ : ∃ more, word = c :: more := by
    cases word with
    | nil =>
      have shorter := (Reader.advances_scan unread scanned).length_lt
      rw [behind, List.nil_append] at shorter
      exact absurd shorter (Nat.lt_irrefl _)
    | cons d more =>
      obtain ⟨rfl, -⟩ := List.cons.inj (unread.symm.trans behind)
      exact ⟨more, rfl⟩
  refine ⟨c, more, _, after, spelled, ?_, scanned⟩
  rw [behind, spelled, List.cons_append]

/-- It is read again wherever it is parted from what stands behind it, but behind an arrow. -/
theorem readsAs (isWord : IsWord word) {context : Context} {tail : List Char} (parts : Parts tail)
    (noArrow : context.previous ≠ some .arrow) :
    ReadsAs context word tail .identifier (String.ofList word) := by
  obtain ⟨c, more, first, after, rfl, unread, scanned⟩ := isWord.scanned
  have starts := Reader.isNameStart_of_scan unread scanned rfl
  refine ⟨ReadsAs.solid_of_isNameStart starts tail, fun reader d rest same behind => ?_⟩
  obtain ⟨rfl, -⟩ := List.cons.inj (same.symm.trans behind)
  obtain ⟨item, after', again, content, rest⟩ :=
    Reader.scan_again scanned unread same (fun _ => parts) nofun
  rw [Reader.scan_name starts noArrow]
  have place := Reader.place_scan same again
  cases item with
  | error fault => contradiction
  | ok token =>
    rcases token with ⟨kind, text, position⟩
    obtain ⟨rfl, rfl⟩ := Prod.mk.inj (Except.ok.inj content)
    obtain rfl := place
    exact ⟨after', again, rest⟩

end IsWord

/-! ## A word and a value -/

/-- The number one at the end of a statement, or of parentheses there. -/
theorem ReadsAs.one (context : Context) {tail : List Char} (ends : tail ∈ [[';'], [')', ';']]) :
    ReadsAs context ['1'] tail .number "1" := by
  refine ⟨⟨'1', [], rfl, rfl, by decide, opensDocumentation_of_ne (by decide) _⟩,
    fun reader d more unread same => ?_⟩
  obtain ⟨rfl, -⟩ := List.cons.inj (same.symm.trans unread)
  rcases reader with ⟨text, position, consumed, ahead, ended⟩
  obtain rfl : text = '1' :: tail := unread
  simp only [List.mem_cons, List.not_mem_nil, or_false] at ends
  obtain rfl | rfl := ends
  · exact ⟨_, rfl, rfl⟩
  · exact ⟨_, rfl, rfl⟩

/-- The tokens of a return of a word and a value. -/
theorem scan_returned {word : List Char} (isWord : IsWord word) :
    ∃ tokens : List Token, scan ("return ".toList ++ word ++ " => 1;".toList) = tokens.map .ok ∧
      tokens.map Token.content = [(.identifier, "return"), (.identifier, String.ofList word),
        (.fatComma, "=>"), (.number, "1"), (.semicolon, ";")] := by
  have space : Spacing [' '] := .space rfl .nil
  have isReturn : IsWord "return".toList := rfl
  have fat : operatorAt ("=>".toList ++ " 1;".toList) = some "=>" := rfl
  have scanned := ScansAs.scan
    (.cons_adjacent (isReturn.readsAs (parts_cons (by decide) _) nofun) <|
    .cons space (isWord.readsAs (parts_cons (by decide) _) nofun) <|
    .cons space (.spelled fat nofun (.inr rfl)) <|
    .cons space (.one _ (by decide)) (.semicolon _ _)) nofun
  rw [List.append_assoc]
  exact ⟨_, scanned, rfl⟩

/-- The tokens of a return of a word and a value in parentheses. -/
theorem scan_returned_group {word : List Char} (isWord : IsWord word) :
    ∃ tokens : List Token, scan ("return (".toList ++ word ++ " => 1);".toList) = tokens.map .ok ∧
      tokens.map Token.content = [(.identifier, "return"), (.openParen, "("),
        (.identifier, String.ofList word), (.fatComma, "=>"), (.number, "1"), (.closeParen, ")"),
        (.semicolon, ";")] := by
  have space : Spacing [' '] := .space rfl .nil
  have isReturn : IsWord "return".toList := rfl
  have opener : operatorAt ("(".toList ++ (word ++ " => 1);".toList)) = some "(" := rfl
  have fat : operatorAt ("=>".toList ++ " 1);".toList) = some "=>" := rfl
  have closer : operatorAt (")".toList ++ [';']) = some ")" := rfl
  have scanned := ScansAs.scan
    (.cons_adjacent (isReturn.readsAs (parts_cons (by decide) _) nofun) <|
    .cons space (.spelled opener nofun (.inr rfl)) <|
    .cons_adjacent (isWord.readsAs (parts_cons (by decide) _) nofun) <|
    .cons space (.spelled fat nofun (.inr rfl)) <|
    .cons space (.one _ (by decide)) <|
    .cons_adjacent (.spelled closer nofun (.inr rfl)) (.semicolon _ _)) nofun
  rw [List.append_assoc]
  exact ⟨_, scanned, rfl⟩

end SigilScript
