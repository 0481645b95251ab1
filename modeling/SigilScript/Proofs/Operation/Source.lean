import SigilScript.Proofs.Composition
import SigilScript.Proofs.Modifier
import SigilScript.Proofs.Operation.RoundTrip
import SigilScript.Proofs.Scan.Tokens

/-! # Operators between variables

An operator has to be known three times: the scanner cuts its spelling out of the text, the tables of
words and operators give it its role, and the table of bindings gives it its place in a tree. The
scanner has no spelling for one of the bindings: it takes the repetition that assigns for a repetition
and an equals sign, and the variable behind the equals sign has no place in the tree.
-/

namespace SigilScript

variable {left right : List Char} {op : String} {binding : Binding}

/-! ## The scanner -/

/-- Behind a variable every binary operator but one is read whole where a space and a variable stand
behind it. -/
theorem readsAs_operator {context : Context} (operand : context.afterOperand = true)
    (binds : binding? op = some binding) (whole : op ≠ "x=") (rest : List Char) :
    ReadsAs context op.toList (' ' :: '$' :: rest) (Symbol.operator op).kind op := by
  by_cases word : op ∈ wordOperators
  · have every : ∀ op ∈ wordOperators, IsIdentifier op.toList ∧ isEndWord op = false ∧
        opensVersion op.toList = false := by decide
    obtain ⟨isIdentifier, goesOn, noVersion⟩ := every op word
    rw [← String.ofList_toList (s := op)] at goesOn
    have reads := ReadsAs.word_or_version context isIdentifier goesOn (by decide : endsWord ' ' = true)
      ('$' :: rest)
    rw [wordKind, noVersion, String.ofList_toList] at reads
    simpa [Symbol.operator, word, Symbol.of] using reads
  · have every : ∀ op ∈ binaryOperators, op ∉ wordOperators → op ≠ "x=" →
        op ≠ "not" ∧ TokenKind.ofOperator op = .operator ∧ 1 ≤ op.toList.length ∧
          operatorAt (op.toList ++ [' ', '$']) = some op := by decide +kernel
    obtain ⟨unnamed, kind, nonempty, found⟩ := every op (mem_binaryOperators binds) word whole
    have seen : 3 ≤ (op.toList ++ [' ', '$']).length := by simp; omega
    have fits := operatorAt_seen seen [] rest
    rw [List.append_nil, found, List.append_assoc] at fits
    have reads := ReadsAs.spelled fits (fun _ => rfl) (.inl operand)
    simpa [Symbol.operator, word, unnamed, Symbol.of, kind] using reads

theorem Position.after_line {text : List Char} (position : Position) (line : '\n' ∉ text) :
    position.after text = ⟨position.line, position.column + text.length⟩ := by
  induction text generalizing position with
  | nil => rfl
  | cons c text ih =>
    rw [List.mem_cons, not_or] at line
    obtain ⟨first, further⟩ := line
    rw [after, List.foldl_cons, ← after, ih _ further, next, if_neg (Ne.symm first)]
    simp only [List.length_cons, Position.mk.injEq, true_and]
    omega

/-- The text of two variables with an operator between them, and of a terminator. -/
def infixText (left : List Char) (op : String) (right : List Char) : List Char :=
  '$' :: left ++ [' '] ++ op.toList ++ [' ', '$'] ++ right ++ [';']

theorem infixText_eq (left : List Char) (op : String) (right : List Char) :
    infixText left op right =
      '$' :: left ++ ([' '] ++ (op.toList ++ ([' '] ++ ('$' :: right ++ [';'])))) := by
  simp [infixText]

/-- The space in front of the last variable, the variable, and the terminator. -/
theorem scansAs_ending (context : Context) (position : Position) (isRight : IsIdentifier right) :
    ∃ stop : Position, ScansAs context position ([' '] ++ ('$' :: right ++ [';']))
      [⟨.var .scalar, String.ofList ('$' :: right), position.after [' ']⟩,
        ⟨.semicolon, ";", stop⟩] := by
  exact ⟨_, .cons (.space rfl .nil) (.scalar context isRight (by decide) _) (.semicolon _ _)⟩

/-- Such a text is scanned as the two variables with the operator between them. -/
theorem scan_infix (isLeft : IsIdentifier left) (isRight : IsIdentifier right)
    (binds : binding? op = some binding) (whole : op ≠ "x=") :
    ∃ first second third : Position, scan (infixText left op right) =
      [⟨.var .scalar, String.ofList ('$' :: left), .start⟩,
        ⟨(Symbol.operator op).kind, op, first⟩,
        ⟨.var .scalar, String.ofList ('$' :: right), second⟩,
        ⟨.semicolon, ";", third⟩].map .ok := by
  have space : Spacing [' '] := .space rfl .nil
  obtain ⟨stop, ending⟩ := scansAs_ending _ _ isRight
  have scanned := ScansAs.scan (.cons_adjacent (.scalar .start isLeft (by decide) _) <|
    .cons space (readsAs_operator rfl binds whole _) ending) nofun
  rw [infixText_eq]
  exact ⟨_, _, _, scanned⟩

/-- Where the second variable stands behind a repetition and an equals sign. -/
theorem place_repetition (isLeft : IsIdentifier left) :
    ((((Position.start.after ('$' :: left)).after [' ']).after ['x']).after ['=']).after [' '] =
      ⟨1, left.length + 6⟩ := by
  have line : '\n' ∉ '$' :: left := by
    simpa using isLeft.no_newline
  rw [Position.start.after_line line]
  simp [Position.after, Position.next, Position.start]
  omega

/-- The repetition that assigns is scanned as a repetition and an equals sign. -/
theorem scan_infix_repetition (isLeft : IsIdentifier left) (isRight : IsIdentifier right) :
    ∃ first second third : Position, scan (infixText left "x=" right) =
      [⟨.var .scalar, String.ofList ('$' :: left), .start⟩, ⟨.identifier, "x", first⟩,
        ⟨.operator, "=", second⟩,
        ⟨.var .scalar, String.ofList ('$' :: right), ⟨1, left.length + 6⟩⟩,
        ⟨.semicolon, ";", third⟩].map .ok := by
  have space : Spacing [' '] := .space rfl .nil
  have isWord : IsIdentifier ['x'] := by decide
  have equals : operatorAt ("=".toList ++ ([' '] ++ ('$' :: right ++ [';']))) = some "=" := rfl
  obtain ⟨stop, ending⟩ := scansAs_ending _ _ isRight
  have scanned := ScansAs.scan (.cons_adjacent (.scalar .start isLeft (by decide) _) <|
    .cons space (.word_or_version _ isWord rfl (by decide : endsWord '=' = true) _) <|
    .cons_adjacent (.spelled equals (fun _ => rfl) (.inr rfl)) ending) nofun
  rw [infixText_eq, ← place_repetition isLeft]
  exact ⟨_, _, _, scanned⟩

/-! ## The tree -/

/-- The scalar variable of a name. -/
def scalarOf (name : List Char) : Node := .var .scalar (String.ofList name)

theorem scalarOf_symbols (name : List Char) :
    (scalarOf name).symbols = [.of (.var .scalar) (String.ofList ('$' :: name))] := by
  have spelled : Sigil.scalar.text ++ String.ofList name = String.ofList ('$' :: name) := by
    rw [← List.singleton_append, String.ofList_append]
    rfl
  rw [scalarOf, ← spelled]
  rfl

/-- Behind a repetition an equals sign begins no operand, and what stands behind it is left. -/
theorem parseExpression_repetition (anchor p q r s : Position) (text other : String) :
    parseExpression anchor [⟨⟨.var .scalar, text, p⟩, .var⟩,
      ⟨⟨.identifier, "x", q⟩, .binaryOperator⟩, ⟨⟨.operator, "=", r⟩, .binaryOperator⟩,
      ⟨⟨.var .scalar, other, s⟩, .var⟩] = .error ⟨.unexpected other, s⟩ := by
  with_unfolding_all rfl

/-- Behind anything but an arrow a token is the symbol that it is on its own. -/
theorem Token.symbol_classify (kind : TokenKind) (text : String) (position : Position)
    {previous : Option Category} (noArrow : previous ≠ some .arrow) :
    (classify ⟨kind, text, position⟩ previous).symbol = .of kind text := by
  have own : categoryAfter ⟨kind, text, position⟩ previous = category ⟨kind, text, .start⟩ := by
    unfold categoryAfter
    split
    · contradiction
    · rfl
  exact congrArg (Symbol.mk kind text) own

/-- Between two variables every binary operator makes the tree that it binds them to, but for the
repetition that assigns: there the second variable is refused, behind the equals sign. -/
theorem parse_infix (isLeft : IsIdentifier left) (isRight : IsIdentifier right)
    (binds : binding? op = some binding) :
    parse (infixText left op right) =
      [if op = "x=" then
        .error ⟨.unexpected (String.ofList ('$' :: right)), ⟨1, left.length + 6⟩⟩
      else .binary op (scalarOf left) (scalarOf right)] := by
  by_cases repetition : op = "x="
  · subst repetition
    obtain ⟨first, second, third, scanned⟩ := scan_infix_repetition isLeft isRight
    rw [parse_of_scan scanned, if_pos rfl]
    show (splitStatements (_ :: [_, _, _] ++ [_])).filterMap parseStatement = _
    rw [Grammar.parse_variable_plain rfl rfl]
    · exact congrArg (fun node => [node]) (parseExpression_repetition ..)
    · simp only [List.forall_mem_cons]
      exact ⟨rfl, rfl, rfl, List.forall_mem_nil _⟩
  · obtain ⟨first, second, third, scanned⟩ := scan_infix isLeft isRight binds repetition
    have spelled : (Token.classify ⟨(Symbol.operator op).kind, op, first⟩ (some .var)).symbol =
        .operator op :=
      Token.symbol_classify _ op first (by decide)
    have role := (Lexeme.of_symbol spelled).2.2
    rw [Symbol.category_operator binds] at role
    rw [parse_of_scan scanned, if_neg repetition]
    show (splitStatements (_ :: [_, _] ++ [_])).filterMap parseStatement = _
    rw [Grammar.parse_variable_plain rfl rfl]
    · have isLeaf (name : List Char) : (scalarOf name).IsLeaf := .scalar _
      have written := Node.IsJoined.symbols_joined binds
        (Node.IsJoined.reaches_leaf binds (isLeaf left)).1
        (Node.IsJoined.reaches_leaf binds (isLeaf right)).2
      rw [scalarOf_symbols, scalarOf_symbols, ← spelled] at written
      have operation := Node.IsOperation.joined binds (.leaf (isLeaf left)) (.leaf (isLeaf right))
      exact congrArg (fun node => [node]) (operation.parsed _ written.symm)
    · simp only [List.forall_mem_cons]
      exact ⟨congrArg Category.isPlain role, rfl, List.forall_mem_nil _⟩

/-- A repetition is read as one, and a repetition that assigns is not. -/
theorem parse_infix_repetition :
    parse "$a x $b;".toList = [.binaryOp "x" (.var .scalar "a") (.var .scalar "b")] ∧
      parse "$a x= $b;".toList = [.error ⟨.unexpected "$b", ⟨1, 7⟩⟩] := by
  have isLeft : IsIdentifier ['a'] := by decide
  have isRight : IsIdentifier ['b'] := by decide
  have repeats := parse_infix isLeft isRight (show binding? "x" = some ⟨16, .left⟩ by decide)
  have assigns := parse_infix isLeft isRight (show binding? "x=" = some ⟨4, .right⟩ by decide)
  rw [show infixText ['a'] "x" ['b'] = "$a x $b;".toList by decide, if_neg (by decide)] at repeats
  rw [show infixText ['a'] "x=" ['b'] = "$a x= $b;".toList by decide, if_pos rfl] at assigns
  exact ⟨repeats, assigns⟩

end SigilScript
