import SigilScript.Proofs.Composition
import SigilScript.Proofs.Grouping
import SigilScript.Proofs.Modifier
import SigilScript.Proofs.Scan.Tokens

/-! # Words as names

Behind an arrow and alone in braces a word is a name, whatever the tables of keywords, operators and
builtins make of it elsewhere. But a `v` and digits are a version before the role of a word is
asked for, and the scanner makes no exception for the two places: `$o->v5` is refused, and the key
in `$h{v5}` is a number.
-/

namespace SigilScript

open Grammar

variable {word : List Char}

/-! ## The scanner -/

/-- Behind an arrow an identifier is a name, or a version. -/
theorem scan_method (isIdentifier : IsIdentifier word)
    (goesOn : isEndWord (String.ofList word) = false) :
    ∃ stop : Position, scan ("$o->".toList ++ word ++ [';']) =
      [⟨.var .scalar, "$o", .start⟩, ⟨.arrow, "->", ⟨1, 3⟩⟩,
        ⟨wordKind word, String.ofList word, ⟨1, 5⟩⟩, ⟨.semicolon, ";", stop⟩].map .ok := by
  have isVariable : IsIdentifier ['o'] := by decide
  have arrow : operatorAt ("->".toList ++ (word ++ [';'])) = some "->" := rfl
  have scanned := ScansAs.scan (.cons_adjacent (.scalar .start isVariable (by decide) _) <|
    .cons_adjacent (.spelled arrow nofun (.inl rfl)) <|
    .cons_adjacent (.word_or_version _ isIdentifier goesOn (by decide) _) (.semicolon _ _)) nofun
  simp only [List.append_assoc]
  exact ⟨_, scanned⟩

/-- Alone in braces it is one as well. -/
theorem scan_key (isIdentifier : IsIdentifier word)
    (goesOn : isEndWord (String.ofList word) = false) :
    ∃ last stop : Position, scan ("$h\x7b".toList ++ word ++ ['\x7d', ';']) =
      [⟨.var .scalar, "$h", .start⟩, ⟨.openBrace, "\x7b", ⟨1, 3⟩⟩,
        ⟨wordKind word, String.ofList word, ⟨1, 4⟩⟩, ⟨.closeBrace, "\x7d", last⟩,
        ⟨.semicolon, ";", stop⟩].map .ok := by
  have isVariable : IsIdentifier ['h'] := by decide
  have opener : operatorAt ("\x7b".toList ++ (word ++ ['\x7d', ';'])) = some "\x7b" := rfl
  have closer : operatorAt ("\x7d".toList ++ [';']) = some "\x7d" := rfl
  have scanned := ScansAs.scan (.cons_adjacent (.scalar .start isVariable (by decide) _) <|
    .cons_adjacent (.spelled opener nofun (.inl rfl)) <|
    .cons_adjacent (.word_or_version _ isIdentifier goesOn (by decide) _) <|
    .cons_adjacent (.spelled closer nofun (.inr rfl)) (.semicolon _ _)) nofun
  simp only [List.append_assoc]
  exact ⟨_, _, scanned⟩

/-! ## The tree -/

/-- A scalar variable and one link behind it are one expression. -/
theorem parseExpression_link {head : Lexeme} {rest : List Lexeme} {value : Node}
    (anchor : Position) (kind : head.token.kind = .var .scalar) (role : head.category = .var)
    (link : full.Link (.ofSpelling .scalar head.text) rest value []) :
    parseExpression anchor (head :: rest) = value := by
  have chained : full.readChain (.ofSpelling .scalar head.text) rest = (value, []) := by
    rw [link.readChain, full_chain]
    rfl
  apply parseExpression_of_operation
  rw [full_operation]
  simp only [readOperation, readOperand, role, readAtom, readPrimary, kind, chained, readClimb]

/-- Behind an arrow a word names a method. -/
theorem Lexeme.namesMethod_of_word {name : Lexeme} (isWord : name.isWord = true)
    (role : name.category = .identifier) : name.NamesMethod := by
  simp [NamesMethod, isWord, role]

/-- A version behind an arrow names no method. -/
theorem parseExpression_version (anchor p q r : Position) (text : String) :
    parseExpression anchor [⟨⟨.var .scalar, "$o", p⟩, .var⟩, ⟨⟨.arrow, "->", q⟩, .arrow⟩,
      ⟨⟨.number, text, r⟩, .literal⟩] = .error ⟨.expected .member (some text), r⟩ := by
  with_unfolding_all rfl

/-- Behind an arrow every word names a method, but a version. -/
theorem parse_method (isIdentifier : IsIdentifier word)
    (goesOn : isEndWord (String.ofList word) = false) :
    parse ("$o->".toList ++ word ++ [';']) =
      [if opensVersion word then .error ⟨.expected .member (some (String.ofList word)), ⟨1, 5⟩⟩
      else .methodCall (.var .scalar "o") (String.ofList word) []] := by
  obtain ⟨stop, scanned⟩ := scan_method isIdentifier goesOn
  rw [parse_of_scan scanned, wordKind]
  show (splitStatements (_ :: [_, _] ++ [_])).filterMap parseStatement = _
  rw [parse_variable_plain rfl rfl]
  · refine congrArg (fun node => [node]) ?_
    split
    · exact parseExpression_version ..
    · refine parseExpression_link _ rfl rfl ?_
      exact .method rfl (Lexeme.namesMethod_of_word rfl rfl) rfl
  · simp only [List.forall_mem_cons]
    refine ⟨rfl, ?_, List.forall_mem_nil _⟩
    split <;> rfl

/-- The tree of a word alone in braces. -/
def keyOf (word : List Char) : Node :=
  if opensVersion word then .number (String.ofList word) else .plain (String.ofList word)

theorem readHashKey_word (word : List Char) (anchor position : Position)
    (previous : Option Category) :
    full.readHashKey anchor [Token.classify ⟨wordKind word, String.ofList word, position⟩ previous] =
      keyOf word := by
  rw [wordKind, keyOf]
  split
  · with_unfolding_all rfl
  · rfl

theorem nested_word (word : List Char) (position : Position) (previous : Option Category) :
    Nested [Token.classify ⟨wordKind word, String.ofList word, position⟩ previous] := by
  have plain : (Token.categoryAfter ⟨wordKind word, String.ofList word, position⟩
      previous).isOpener = false ∧ (Token.categoryAfter ⟨wordKind word, String.ofList word, position⟩
        previous).isCloser = false := by
    rw [wordKind]
    split
    · exact ⟨rfl, rfl⟩
    · exact Token.categoryAfter_plain (.inl rfl) previous
  exact .plain plain.1 plain.2 .nil

/-- Alone in braces every word is a key, but a version. -/
theorem parse_key (isIdentifier : IsIdentifier word)
    (goesOn : isEndWord (String.ofList word) = false) :
    parse ("$h\x7b".toList ++ word ++ ['\x7d', ';']) =
      [.access .hashElement (.var .hash "h") (keyOf word)] := by
  obtain ⟨last, stop, scanned⟩ := scan_key isIdentifier goesOn
  rw [parse_of_scan scanned]
  show (splitStatements (_ :: _ :: ([_] ++ [_]) ++ [_])).filterMap parseStatement = _
  rw [parse_variable_group rfl rfl rfl (nested_word ..)]
  refine congrArg (fun node => [node]) ?_
  rw [← readHashKey_word word]
  apply parseExpression_link _ rfl rfl
  exact .subscript (.inr rfl) rfl (takeGroup_nested rfl (nested_word ..) [])

/-- A word that does not end the text names a method behind an arrow and a key in braces if and only
if it is not spelled as a version. -/
theorem parse_named (isIdentifier : IsIdentifier word)
    (goesOn : isEndWord (String.ofList word) = false) :
    parse ("$o->".toList ++ word ++ [';']) =
        [if opensVersion word then
          .error ⟨.expected .member (some (String.ofList word)), ⟨1, 5⟩⟩
        else .methodCall (.var .scalar "o") (String.ofList word) []] ∧
      parse ("$h\x7b".toList ++ word ++ ['\x7d', ';']) =
        [.access .hashElement (.var .hash "h")
          (if opensVersion word then .number (String.ofList word)
          else .plain (String.ofList word))] :=
  ⟨parse_method isIdentifier goesOn, parse_key isIdentifier goesOn⟩

/-- A keyword is a name at both places, and a version at neither. -/
theorem parse_named_version :
    parse "$o->if;".toList = [.methodCall (.var .scalar "o") "if" []] ∧
      parse "$h\x7bif\x7d;".toList = [.access .hashElement (.var .hash "h") (.plain "if")] ∧
      parse "$o->v5;".toList = [.error ⟨.expected .member (some "v5"), ⟨1, 5⟩⟩] ∧
      parse "$h\x7bv5\x7d;".toList = [.access .hashElement (.var .hash "h") (.number "v5")] := by
  have keyword : IsIdentifier "if".toList := by decide
  have version : IsIdentifier "v5".toList := by decide
  exact ⟨(parse_named keyword rfl).1, (parse_named keyword rfl).2, (parse_named version rfl).1,
    (parse_named version rfl).2⟩

end SigilScript
