import SigilScript.Proofs.Elements
import SigilScript.Proofs.Extent
import SigilScript.Proofs.Modifier
import SigilScript.Proofs.Scan.Words

/-! # Words before a fat comma

A fat comma quotes the word before it, and it does so at two places of the grammar: where a list
between brackets is cut at its commas, and where a name is read as an operand. The first asks for
any word, the second is reached by names and builtins alone. So a list between brackets quotes every
word, and a list without brackets quotes those of two roles: `return default => 1;` is refused,
where `return (default => 1);` returns a string and a number.
-/

namespace SigilScript

open Grammar

/-! ## Returns -/

/-- The lexeme of the word `return` where it is the keyword. -/
structure Lexeme.Returns (keyword : Lexeme) : Prop where
  isWord : keyword.isWord = true
  role : keyword.category = .keyword
  spelled : keyword.text = "return"

section Returns

variable {keyword stop : Lexeme} {inner : List Lexeme} {anchor : Position}

namespace Grammar

/-- A return of all the arguments behind it. -/
theorem readWhole_returned {values : List Node} (returns : keyword.Returns)
    (read : full.readArguments inner = (values, [])) :
    full.readWhole anchor (keyword :: inner) = .returned (valueOf values) := by
  have kind : keyword.token.kind = .identifier := of_decide_eq_true returns.isWord
  rw [← parseExpression_eq]
  apply parseExpression_of_operation
  rw [full_operation]
  simp only [readOperation, readOperand, returns.role, readAtom, readPrimary, kind, readKeyword,
    returns.spelled, read, readChain, readClimb]

/-- Where a whole that begins with the keyword is a return, it returns the arguments behind it. -/
theorem returned_of_readWhole {value : Option Node} (returns : keyword.Returns)
    (read : full.readWhole anchor (keyword :: inner) = .returned value) :
    value = valueOf (full.readArguments inner).1 := by
  have kind : keyword.token.kind = .identifier := of_decide_eq_true returns.isWord
  rcases operation : full.operation Level.lowest keyword inner with ⟨node, left⟩
  rw [← parseExpression_eq, parseExpression_cases, operation] at read
  have same : node = .returned value := by
    split at read
    · simp only [Node.finish] at read
      split at read <;> contradiction
    · cases left with
      | nil => exact read
      | cons extra rest => contradiction
  subst same
  have operand := operation_lone operation rfl
  rw [readOperand_atom (by simp [returns.role]) (by simp [returns.role])] at operand
  obtain ⟨same, -⟩ := chain_lone operand rfl
  rw [full_primary] at same
  simp only [readPrimary, kind, returns.role, readKeyword, returns.spelled] at same
  exact Node.returned.inj same

/-- A statement that begins with the keyword and holds no modifier is one expression. -/
theorem readModified_returned (returns : keyword.Returns)
    (unmodified : cutAtTopLevel? Lexeme.isModifier 0 (keyword :: inner) = none) :
    full.readModified keyword inner = full.readWhole keyword.position (keyword :: inner) := by
  rw [readModified_unmodified unmodified]
  simp [readSimple, returns.role, readReserved, returns.spelled]

end Grammar

theorem Lexeme.Returns.nested (returns : keyword.Returns) : Nested [keyword] := by
  refine .plain ?_ ?_ .nil
  · simp [returns.role, Category.isOpener]
  · simp [returns.role, Category.isCloser]

theorem Lexeme.Returns.alone (returns : keyword.Returns) :
    cutAtTopLevel? isModifier 0 [keyword] = none :=
  cutAtTopLevel?_eq_none (by simp [isModifier, returns.role]) 0

/-- No modifier makes a return. -/
theorem modified_ne_returned (spelling : String) (condition : Node) (body : List Node)
    (value : Option Node) : modified spelling condition body ≠ .returned value := by
  intro returned
  simp only [modified] at returned
  split at returned <;> contradiction

/-- The keyword is no place of a modifier. -/
theorem Lexeme.Returns.cut_behind (returns : keyword.Returns) (inner : List Lexeme) :
    cutAtTopLevel? isModifier 0 (keyword :: inner) =
      (cutAtTopLevel? isModifier 0 inner).map (Cut.pushAll [keyword]) :=
  cutAtTopLevel?_behind isModifier returns.nested returns.alone inner

/-- Up to its terminator a return is one statement. -/
theorem parse_return (returns : keyword.Returns) (ends : stop.category = .terminator)
    (nested : Nested inner) (outside : hasTopLevel inner .terminator = false) :
    (splitStatements (keyword :: inner ++ [stop])).filterMap parseStatement =
      [full.readModified keyword inner] := by
  have simple : keyword.head = .simple := by
    simp [Lexeme.head, returns.role, returns.spelled]
  exact parse_simple simple (by rw [returns.role]; decide) ends nested.level outside

end Returns

/-- The tree of what is returned is a list if it is the only argument, or else there are several. -/
theorem valueOf_cons {first : Node} {rest items : List Node}
    (value : valueOf (first :: rest) = some (.list items)) :
    first = .list items ∨ first :: rest = items := by
  cases rest with
  | nil => exact .inl (Option.some.inj value)
  | cons second rest => exact .inr (Node.collection.inj (Option.some.inj value)).2

/-! ## A word and a value -/

/-- The lexemes of a word, of a fat comma, and of the number one. -/
structure KeyedOne (word comma one : Lexeme) : Prop extends word.Keyed comma where
  isOne : one = ⟨⟨.number, "1", one.position⟩, .literal⟩

namespace KeyedOne

variable {word comma one keyword opener closer stop : Lexeme}

/-- The trees of the word and its value. -/
def trees (word : String) : List Node := [.plain word, .number "1"]

theorem nested (keyed : KeyedOne word comma one) : Nested [word, comma, one] := by
  obtain ⟨opens, closes, -⟩ := keyed.plain
  refine .plain opens closes (.plain ?_ ?_ (.plain ?_ ?_ .nil))
  · rw [keyed.role]
    rfl
  · rw [keyed.role]
    rfl
  · rw [keyed.isOne]
    rfl
  · rw [keyed.isOne]
    rfl

/-- None of the lexemes is a terminator. -/
theorem outside (keyed : KeyedOne word comma one) :
    hasTopLevel [word, comma, one] .terminator = false := by
  obtain ⟨-, -, -, goesOn⟩ := keyed.plain
  have last : one.category = .literal := by rw [keyed.isOne]
  rw [hasTopLevel, cutAtTopLevel?_eq_none (by simp [goesOn, keyed.role, last])]
  rfl

theorem readElements (keyed : KeyedOne word comma one) (anchor : Position) :
    full.readElements anchor [word, comma, one] = trees word.text := by
  have value : (ListKind.bracketed anchor).trees [one] = [.number "1"] := by
    rw [keyed.isOne]
    with_unfolding_all rfl
  have key := ListKind.trees_key anchor keyed.toKeyed [one]
  rw [value] at key
  exact key

/-- Behind a list operator a name is a string. -/
theorem readArguments (keyed : KeyedOne word comma one) (names : word.IsName) :
    full.readArguments [word, comma, one] = (trees word.text, []) := by
  have starts : word.startsOperand = true := by
    rcases names with names | names <;> simp [Lexeme.startsOperand, names]
  have value : full.arguments [one] = ([.number "1"], []) := by
    rw [keyed.isOne]
    with_unfolding_all rfl
  have further : one.category ≠ .comma := by
    rw [keyed.isOne]
    intro same
    contradiction
  rw [readArguments_starts starts, operation_key keyed.isWord names keyed.role keyed.fat]
  simp [furtherArguments, nextIs, keyed.role, further, value, trees]

/-- Behind a list operator only a name is a string. -/
theorem isName_of_readArguments (keyed : KeyedOne word comma one)
    (read : valueOf (full.readArguments [word, comma, one]).1 = some (.list (trees word.text))) :
    word.IsName := by
  by_contra noName
  obtain ⟨previous, classified⟩ := keyed.classified
  have first (node : Node) (lone : node.isLone = true) (other : ∀ value, node ≠ .returned value) :
      (full.operation Level.assignment word [comma, one]).1 ≠ node := by
    intro read
    subst read
    obtain ⟨value, same⟩ := operation_word keyed.isWord classified noName lone
    exact other value same
  change valueOf (ListKind.arguments.trees [word, comma, one]) = _ at read
  cases starts : word.startsOperand with
  | false =>
    rw [ListKind.trees_none starts] at read
    contradiction
  | true =>
    rw [ListKind.trees_argument starts] at read
    -- Either the list is the one argument, or the string is the first of several.
    rcases valueOf_cons read with whole | several
    · exact first (.list (trees word.text)) rfl nofun whole
    · exact first (.plain word.text) rfl nofun (List.cons.inj several).1

/-- In parentheses behind a list operator every word is a string. -/
theorem readArguments_group (keyed : KeyedOne word comma one)
    (kind : opener.token.kind = .openParen) (opens : opener.category = .leftParen)
    (closes : closer.category = .rightParen) :
    full.readArguments (opener :: ([word, comma, one] ++ [closer])) =
      ([.list (trees word.text)], []) := by
  have starts : opener.startsOperand = true := by simp [Lexeme.startsOperand, opens]
  have taken : takeGroup opener ([word, comma, one] ++ [closer]) = (.ok [word, comma, one], []) :=
    takeGroup_nested (by rw [opens, closes]; rfl) keyed.nested []
  have commas : hasTopLevel [word, comma, one] .comma = true := by
    rw [hasTopLevel, ListKind.cut_word keyed.toKeyed]
    rfl
  have primary : full.readPrimary opener ([word, comma, one] ++ [closer]) =
      (.list (trees word.text), []) := by
    simp only [readPrimary, kind, opens, readParenthesized, readGroup_of_taken taken,
      List.isEmpty_cons, Bool.false_eq_true, ↓reduceIte, commas, keyed.readElements]
  have operation : full.operation Level.assignment opener ([word, comma, one] ++ [closer]) =
      (.list (trees word.text), []) := by
    rw [full_operation]
    simp only [readOperation, readOperand, opens, readAtom, primary, readChain, readClimb]
  rw [readArguments_starts starts, operation]
  rfl

/-- A return of a word and its value is read as the pair if and only if the word is a name. -/
theorem readModified_iff (keyed : KeyedOne word comma one) (returns : keyword.Returns) :
    full.readModified keyword [word, comma, one] = .returned (some (.list (trees word.text))) ↔
      word.IsName := by
  have unmodified (plain : word.isModifier = false) :
      cutAtTopLevel? Lexeme.isModifier 0 [keyword, word, comma, one] = none := by
    have others : comma.isModifier = false ∧ one.isModifier = false := by
      rw [keyed.isOne]
      simp [Lexeme.isModifier, keyed.role]
    rw [returns.cut_behind, cutAtTopLevel?_eq_none (by simp [plain, others]) 0, Option.map_none]
  constructor
  · intro read
    cases modifies : word.isModifier with
    | true =>
      -- The word ends the statement in front of it and is its modifier.
      have noControl : keyword.category ≠ .controlKeyword := by simp [returns.role]
      have split := readModified_modifier returns.nested noControl returns.alone modifies
        (List.cons_ne_nil comma [one])
      exact absurd (split.symm.trans read) (modified_ne_returned _ _ _ _)
    | false =>
      rw [readModified_returned returns (unmodified modifies)] at read
      exact keyed.isName_of_readArguments (returned_of_readWhole returns read).symm
  · intro names
    have plain : word.isModifier = false := by
      rcases names with role | role <;> simp [Lexeme.isModifier, role]
    rw [readModified_returned returns (unmodified plain),
      readWhole_returned returns (keyed.readArguments names)]
    rfl

/-- In parentheses it is read as the pair, whatever the word. -/
theorem readModified_group (keyed : KeyedOne word comma one) (returns : keyword.Returns)
    (kind : opener.token.kind = .openParen) (opens : opener.category = .leftParen)
    (closes : closer.category = .rightParen) :
    full.readModified keyword (opener :: ([word, comma, one] ++ [closer])) =
      .returned (some (.list (trees word.text))) := by
  have partner : opener.category.closer? = some closer.category := by
    rw [opens, closes]
    rfl
  have plain : opener.isModifier = false := by simp [Lexeme.isModifier, opens]
  have unmodified : cutAtTopLevel? Lexeme.isModifier 0
      (keyword :: opener :: ([word, comma, one] ++ [closer])) = none := by
    rw [returns.cut_behind, cutAtTopLevel?_group _ partner plain keyed.nested]
    rfl
  rw [readModified_returned returns unmodified,
    readWhole_returned returns (keyed.readArguments_group kind opens closes)]
  rfl

end KeyedOne

/-! ## Sources -/

/-- A token is known by its content but for its place. -/
theorem Token.eq_of_content {token : Token} {kind : TokenKind} {text : String}
    (content : token.content = (kind, text)) : token = ⟨kind, text, token.position⟩ := by
  obtain ⟨rfl, rfl⟩ := Prod.mk.inj content
  rfl

/-- The role of a token is told by its content and the role before it. -/
theorem Token.category_classify {token : Token} {content : TokenKind × String}
    (same : token.content = content) (previous : Option Category) :
    (token.classify previous).category =
      Token.categoryAfter ⟨content.1, content.2, .start⟩ previous := by
  subst same
  rfl

section Sources

variable {word comma one keyword : Token} {spelling : String}

theorem Token.returns_classify (isReturn : keyword.content = (.identifier, "return")) :
    (keyword.classify none).Returns := by
  rw [Token.eq_of_content isReturn]
  exact ⟨rfl, rfl, rfl⟩

/-- The lexemes of a word, of a fat comma and of the number one, however they are classified. -/
theorem Token.keyedOne_classify (isWord : word.content = (.identifier, spelling))
    (fat : comma.content = (.fatComma, "=>")) (isOne : one.content = (.number, "1"))
    (previous before after : Option Category) :
    KeyedOne (word.classify previous) (comma.classify before) (one.classify after) := by
  rw [Token.eq_of_content isWord, Token.eq_of_content fat, Token.eq_of_content isOne]
  exact ⟨⟨rfl, ⟨previous, rfl⟩, rfl, rfl⟩, rfl⟩

/-- Behind a keyword a word is a name if and only if the tables list it as a builtin or not at
all. -/
theorem Token.isName_classify_iff (isWord : word.content = (.identifier, spelling)) :
    (word.classify (some .keyword)).IsName ↔
      Category.ofWord spelling ∈ [.identifier, .builtin] := by
  rw [Lexeme.IsName, Token.category_classify isWord]
  simp [Token.categoryAfter, Token.category]

end Sources

/-- The return of a word as a string, and of the number one. -/
def quotedOne (word : List Char) : Node :=
  .returned (some (.list (KeyedOne.trees (String.ofList word))))

variable {word : List Char}

/-- In parentheses every word is returned as a string. -/
theorem parse_returned_group (isWord : IsWord word) :
    parse ("return (".toList ++ word ++ " => 1);".toList) = [quotedOne word] := by
  obtain ⟨tokens, scanned, contents⟩ := scan_returned_group isWord
  simp only [List.map_eq_cons_iff, List.map_eq_nil_iff] at contents
  obtain ⟨keyword, _, rfl, isReturn, opener, _, rfl, isOpen, name, _, rfl, isName, comma, _, rfl,
    fat, one, _, rfl, isOne, closer, _, rfl, isClose, stop, _, rfl, isStop, rfl⟩ := contents
  obtain ⟨p₁, p₂, p₃, p₄, p₅, p₆, lexemes⟩ : ∃ p₁ p₂ p₃ p₄ p₅ p₆,
      Context.start.lexemes [keyword, opener, name, comma, one, closer, stop] =
        keyword.classify none :: (opener.classify p₁ ::
          ([name.classify p₂, comma.classify p₃, one.classify p₄] ++ [closer.classify p₅])) ++
          [stop.classify p₆] := ⟨_, _, _, _, _, _, rfl⟩
  have returns := Token.returns_classify isReturn
  have keyed := Token.keyedOne_classify isName fat isOne p₂ p₃ p₄
  have opens : (opener.classify p₁).category = .leftParen := Token.category_classify isOpen p₁
  have closes : (closer.classify p₅).category = .rightParen := Token.category_classify isClose p₅
  have ends : (stop.classify p₆).category = .terminator := Token.category_classify isStop p₆
  have kind : (opener.classify p₁).token.kind = .openParen := (Prod.mk.inj isOpen).1
  have text : (name.classify p₂).text = String.ofList word := (Prod.mk.inj isName).2
  have partner : (opener.classify p₁).category.closer? = some (closer.classify p₅).category := by
    rw [opens, closes]
    rfl
  have outside : hasTopLevel (opener.classify p₁ ::
      ([name.classify p₂, comma.classify p₃, one.classify p₄] ++ [closer.classify p₅]))
      .terminator = false := by
    rw [hasTopLevel, cutAtTopLevel?_group _ partner (by rw [opens]; rfl) keyed.nested]
    rfl
  rw [parse_of_scan scanned, lexemes, parse_return returns ends (.single partner keyed.nested) outside,
    keyed.readModified_group returns kind opens closes, text]
  rfl

/-- Without them the same is returned if and only if the word is a name or a builtin. -/
theorem parse_returned_iff (isWord : IsWord word) :
    parse ("return ".toList ++ word ++ " => 1;".toList) = [quotedOne word] ↔
      Category.ofWord (String.ofList word) ∈ [.identifier, .builtin] := by
  obtain ⟨tokens, scanned, contents⟩ := scan_returned isWord
  simp only [List.map_eq_cons_iff, List.map_eq_nil_iff] at contents
  obtain ⟨keyword, _, rfl, isReturn, name, _, rfl, isName, comma, _, rfl, fat, one, _, rfl, isOne,
    stop, _, rfl, isStop, rfl⟩ := contents
  have returns := Token.returns_classify isReturn
  obtain ⟨p₁, p₂, p₃, p₄, rfl, lexemes⟩ : ∃ p₁ p₂ p₃ p₄, p₁ = some .keyword ∧
      Context.start.lexemes [keyword, name, comma, one, stop] =
        keyword.classify none :: [name.classify p₁, comma.classify p₂, one.classify p₃] ++
          [stop.classify p₄] := ⟨_, _, _, _, congrArg some returns.role, rfl⟩
  have keyed := Token.keyedOne_classify isName fat isOne (some .keyword) p₂ p₃
  have ends : (stop.classify p₄).category = .terminator := Token.category_classify isStop p₄
  have text : (name.classify (some .keyword)).text = String.ofList word := (Prod.mk.inj isName).2
  rw [parse_of_scan scanned, lexemes, parse_return returns ends keyed.nested keyed.outside,
    ← Token.isName_classify_iff isName, ← keyed.readModified_iff returns, text, List.singleton_inj]
  rfl

/-! ## Every list -/

/-- Every element of a list has its place there, and where a word before a fat comma stands at the
place the element is the string of the word if and only if the list stands between brackets or the
word is a name or a builtin. So what is returned in parentheses is returned without them if and only
if the tables give the word one of these two roles. -/
theorem quoted_iff (isWord : IsWord word) :
    (∀ {node : Node} {kind : ListKind} {lexemes : List Lexeme} {tree : List Node → Node},
      ReadsList node kind lexemes tree →
        node = tree (kind.trees lexemes) ∧
        (∀ index < (kind.trees lexemes).length,
          ∃ lexeme rest, kind.Element lexemes index (lexeme :: rest) ∧
            (kind.isBracketed = true → lexeme.category ≠ .comma)) ∧
        ∀ {index : Nat} {name comma : Lexeme} {rest : List Lexeme},
          kind.Element lexemes index (name :: comma :: rest) → name.Keyed comma →
          name.text = String.ofList word →
            ((kind.trees lexemes)[index]? = some (.plain (String.ofList word)) ↔
              kind.isBracketed = true ∨ name.IsName)) ∧
      parse ("return (".toList ++ word ++ " => 1);".toList) = [quotedOne word] ∧
      (parse ("return ".toList ++ word ++ " => 1;".toList) =
          parse ("return (".toList ++ word ++ " => 1);".toList) ↔
        Category.ofWord (String.ofList word) ∈ [.identifier, .builtin]) := by
  refine ⟨?_, parse_returned_group isWord, ?_⟩
  · intro node kind lexemes tree lists
    refine ⟨lists.eq, fun index listed => ListKind.exists_element listed, ?_⟩
    intro index name comma rest element keyed same
    rw [← same]
    exact element.key_iff keyed
  · rw [parse_returned_group isWord]
    exact parse_returned_iff isWord

/-- The lexemes `default => 1`. -/
def defaultOne : List Lexeme :=
  [⟨⟨.identifier, "default", .start⟩, .keyword⟩, ⟨⟨.fatComma, "=>", .start⟩, .comma⟩,
    ⟨⟨.number, "1", .start⟩, .literal⟩]

/-- The word `default` is a string in an array and in the parentheses of a return, and none in a
return without parentheses. -/
theorem quoted_iff_default :
    ((ListKind.bracketed .start).trees defaultOne)[0]? = some (.plain "default") ∧
      (ListKind.arguments.trees defaultOne)[0]? ≠ some (.plain "default") ∧
      parse "return (default => 1);".toList =
        [.returned (some (.list [.plain "default", .number "1"]))] ∧
      parse "return default => 1;".toList ≠ parse "return (default => 1);".toList := by
  have isWord : IsWord "default".toList := rfl
  obtain ⟨quoted, group, same⟩ := quoted_iff isWord
  have keyed : Lexeme.Keyed ⟨⟨.identifier, "default", .start⟩, .keyword⟩
      ⟨⟨.fatComma, "=>", .start⟩, .comma⟩ := ⟨rfl, ⟨none, rfl⟩, rfl, rfl⟩
  have array : ReadsList
      (full.readPrimary ⟨⟨.openBracket, "[", .start⟩, .leftBracket⟩
        (defaultOne ++ [⟨⟨.closeBracket, "]", .start⟩, .rightBracket⟩])).1
      (.bracketed .start) defaultOne (.collection .array) := .array rfl rfl rfl
  have returned : ReadsList
      (full.readPrimary ⟨⟨.identifier, "return", .start⟩, .keyword⟩ defaultOne).1
      .arguments defaultOne (fun values => .returned (valueOf values)) := .returned rfl rfl rfl
  refine ⟨?_, ?_, group, ?_⟩
  · exact ((quoted array).2.2 (.first _ _) keyed rfl).mpr (.inl rfl)
  · intro string
    have names := ((quoted returned).2.2 (.first _ _) keyed rfl).mp string
    exact absurd names (by simp [ListKind.isBracketed, Lexeme.IsName])
  · intro equal
    exact absurd (same.mp equal) (by decide)

end SigilScript
