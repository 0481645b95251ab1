import SigilScript.Scan.Scanner

/-! # What is read where

What a sigil begins, what a word begins and what a character begins, each said once: every reading is
one of few kinds, with what it rests on.
-/

namespace SigilScript

/-- Whether a word ends the text of a program. -/
def isEndWord (word : String) : Bool := word = "__END__" || word = "__DATA__"

namespace Reader

variable {reader : Reader} {reading : Reading}

/-! ## Sigils -/

/-- What is read where a sigil comes next. -/
inductive SigilCase (reader : Reader) (sigil : Sigil) : Reading → Prop where
  /-- A variable goes on in a name. -/
  | named {opening rest : List Char} (next : reader.unread = sigil.char :: opening ++ rest) :
    SigilCase reader sigil
      (reader.token (.var sigil)
        (sigil.char :: opening ++ ((reader.look 3).skip (opening.length + 1)).name.1),
        ((reader.look 3).skip (opening.length + 1)).name.2)
  /-- A variable goes on in digits. -/
  | digits {c : Char} {rest : List Char} (next : reader.unread = sigil.char :: [c] ++ rest) :
    SigilCase reader sigil
      (reader.token (.var sigil)
        (sigil.char :: [c] ++ (((reader.look 3).skip 2).run isDigitOrUnderscore).1),
        (((reader.look 3).skip 2).run isDigitOrUnderscore).2)
  /-- A variable, or a sigil before what it dereferences, is what was looked at. -/
  | spelled {kind : TokenKind} {text rest : List Char}
    (next : reader.unread = sigil.char :: text ++ rest)
    (isSigil : kind = .var sigil ∨ kind = .derefSigil sigil) :
    SigilCase reader sigil
      (reader.token kind (sigil.char :: text), (reader.look 3).skip (text.length + 1))
  | operator : SigilCase reader sigil (reader.look 3).operator
  | fault (count : Nat) : SigilCase reader sigil
      (reader.fault (.unexpectedCharacter sigil.char), (reader.look 3).skip (count + 1))

/-- What is seen behind a text that comes next comes behind it. -/
theorem unread_of_peek {c : Char} {text rest : List Char} (next : reader.unread = text ++ rest)
    (peeked : reader.peek? text.length = some c) :
    ∃ behind, reader.unread = text ++ [c] ++ behind := by
  rw [peek?, next, List.getElem?_append_right (Nat.le_refl _), Nat.sub_self,
    ← List.head?_eq_getElem?] at peeked
  obtain ⟨behind, rfl⟩ := List.head?_eq_some_iff.mp peeked
  exact ⟨behind, next.trans (List.append_assoc text [c] behind).symm⟩

theorem sigil_cases {sigil : Sigil} {rest : List Char} (next : reader.unread = sigil.char :: rest) :
    SigilCase reader sigil (reader.sigil sigil) := by
  have one : reader.unread = [sigil.char] ++ rest := next
  simp only [Reader.sigil]
  split
  · exact .named one
  · split
    · next colons =>
      obtain ⟨_, two⟩ := unread_of_peek one colons.1
      obtain ⟨_, three⟩ := unread_of_peek two colons.2
      exact .named three
    · split
      · exact .spelled one (.inr rfl)
      · split
        · exact .spelled one (.inr rfl)
        · split
          · next c peeked _ =>
            obtain ⟨_, two⟩ := unread_of_peek one peeked
            split
            · split
              · exact .digits two
              · exact .spelled two (.inl rfl)
            · split
              · next hash =>
                rw [hash.1] at two
                exact .named two
              · split
                · next hash =>
                  rw [hash.1] at two
                  exact .spelled two (.inr rfl)
                · split
                  · exact .fault 1
                  · exact .fault 0
          · exact .operator
          · split
            · exact .fault 1
            · exact .fault 0

/-! ## Words -/

/-- What is read where a word comes next. -/
inductive WordCase (reader : Reader) : Reading → Prop where
  | string {opener : Char} {more behind : List Char} (interpolated : Bool)
    (quotes : reader.name.1 = 'q' :: more) (next : reader.name.2.unread = opener :: behind) :
    WordCase reader (reader.delimitedString (reader.name.2.skip 1) opener interpolated)
  | words {opener : Char} {more behind : List Char} (quotes : reader.name.1 = 'q' :: more)
    (next : reader.name.2.unread = opener :: behind) :
    WordCase reader (reader.wordList (reader.name.2.skip 1) opener)
  | pattern {opener first : Char} {more behind : List Char} (quotes : reader.name.1 = first :: more)
    (letter : first = 'm' ∨ first = 'q') (next : reader.name.2.unread = opener :: behind) :
    WordCase reader (reader.pattern (reader.name.2.skip 1) opener)
  | plain (goesOn : isEndWord (String.ofList reader.name.1) = false) :
    WordCase reader (word.plainWord reader reader.name.2 reader.name.1)

theorem word_cases {previous : Option Category} (read : reader.word previous = some reading) :
    WordCase reader reading := by
  simp only [word] at read
  split at read
  · contradiction
  · next noEnd =>
    have goesOn : isEndWord (String.ofList reader.name.1) = false := by
      simpa [isEndWord] using noEnd
    split at read
    · next opener found =>
      -- The delimiter comes right behind the quoting word.
      obtain ⟨rest, next⟩ : ∃ rest, reader.name.2.unread = opener :: rest :=
        List.head?_eq_some_iff.mp (Option.filter_eq_some_iff.mp found).1
      have spelled {quoting : String} (same : String.ofList reader.name.1 = quoting) :
          reader.name.1 = quoting.toList := by
        rw [← same, String.toList_ofList]
      split at read
      · next quoting =>
        obtain rfl := Option.some.inj read
        exact .string false (spelled quoting) next
      · next quoting =>
        obtain rfl := Option.some.inj read
        exact .string true (spelled quoting) next
      · next quoting =>
        obtain rfl := Option.some.inj read
        exact .words (spelled quoting) next
      · next quoting =>
        obtain rfl := Option.some.inj read
        exact .pattern (spelled quoting) (.inl rfl) next
      · next quoting =>
        obtain rfl := Option.some.inj read
        exact .pattern (spelled quoting) (.inr rfl) next
      · obtain rfl := Option.some.inj read
        exact .plain goesOn
    · obtain rfl := Option.some.inj read
      exact .plain goesOn

theorem word_none {previous : Option Category} (read : reader.word previous = none) :
    isEndWord (String.ofList reader.name.1) = true := by
  simp only [word] at read
  split at read
  · next ends => simpa [isEndWord] using ends
  · repeat' split at read
    all_goals contradiction

/-! ## Characters -/

/-- What is read where a character comes next. -/
inductive ScanCase (reader : Reader) (context : Context) (c : Char) : Reading → Prop where
  | number (digit : c.isDigit = true) : ScanCase reader context c reader.numberToken
  | fraction (dot : c = '.') (digit : ((reader.look 2).peek? 1).any Char.isDigit = true) :
    ScanCase reader context c (reader.look 2).numberToken
  | quoted (quote : c = '"' ∨ c = '\'') : ScanCase reader context c (reader.quoted c)
  | word {reading : Reading} (starts : isNameStart c = true)
    (read : reader.word context.previous = some reading) : ScanCase reader context c reading
  | sigil (sigil : Sigil) (spelled : c = sigil.char) : ScanCase reader context c (reader.sigil sigil)
  | pattern (slash : c = '/') : ScanCase reader context c (reader.pattern (reader.skip 1) '/')
  | operator : ScanCase reader context c reader.operator
  | dot : ScanCase reader context c (reader.look 2).operator

theorem scan_cases {context : Context} {c : Char} (read : reader.scan context c = some reading) :
    ScanCase reader context c reading := by
  simp only [scan] at read
  split at read
  · next digit =>
    obtain rfl := Option.some.inj read
    exact .number digit
  · split at read
    · next quote =>
      obtain rfl := Option.some.inj read
      exact .quoted (by simpa using quote)
    · split at read
      · next starts => exact .word starts read
      · split at read
        · next dollar =>
          obtain rfl := Option.some.inj read
          exact .sigil .scalar dollar
        · split at read
          · next atSign =>
            obtain rfl := Option.some.inj read
            exact .sigil .array atSign
          · split at read
            · obtain rfl := Option.some.inj read
              exact .operator
            · split at read
              · next dot =>
                obtain rfl := Option.some.inj read
                split
                · next digit => exact .fraction dot digit
                · exact .dot
              · split at read
                · next percent =>
                  obtain rfl := Option.some.inj read
                  exact .sigil .hash percent
                · split at read
                  · next slash =>
                    obtain rfl := Option.some.inj read
                    exact .pattern slash
                  · obtain rfl := Option.some.inj read
                    exact .operator

/-- Where nothing is read a word ends the program. -/
theorem scan_none {context : Context} {c : Char} (read : reader.scan context c = none) :
    isEndWord (String.ofList (nameText reader.unread)) = true := by
  simp only [scan] at read
  repeat' split at read
  all_goals first
    | exact word_none read
    | contradiction

end Reader

end SigilScript
