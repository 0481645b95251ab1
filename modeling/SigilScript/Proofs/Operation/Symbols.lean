import SigilScript.Grammar.Basic
import SigilScript.Proofs.Nesting

/-! # Writing operations

An operation is a tree of operators over numbers and scalar variables. It is written as symbols,
with an operand in parentheses exactly where its own level is below the level that its position
asks for. What is written is properly nested, and the colon of a question mark is never found in
it: every question mark inside brings its own.
-/

namespace SigilScript

/-- What a lexeme is, wherever it stands. -/
structure Symbol where
  kind : TokenKind
  text : String
  category : Category
deriving DecidableEq, Repr, Inhabited

/-- The symbol of a lexeme. -/
def Lexeme.symbol (lexeme : Lexeme) : Symbol := ⟨lexeme.token.kind, lexeme.text, lexeme.category⟩

namespace Symbol

/-- A lexeme with this symbol. -/
def lexeme (position : Position) (symbol : Symbol) : Lexeme :=
  ⟨⟨symbol.kind, symbol.text, position⟩, symbol.category⟩

/-- A token's symbol, with the role that the token plays on its own. -/
def of (kind : TokenKind) (text : String) : Symbol :=
  ⟨kind, text, Token.category ⟨kind, text, .start⟩⟩

/-- The symbol of an operator: a word where it is spelled as one. -/
def operator (op : String) : Symbol :=
  .of (if op ∈ wordOperators ∨ op = "not" then .identifier else .operator) op

def leftParen : Symbol := .of .openParen "("

def rightParen : Symbol := .of .closeParen ")"

def question : Symbol := .of .question "?"

def colon : Symbol := .of .colon ":"

end Symbol

/-- The level that a left operand has to reach: grouping to the right asks for a tighter one. -/
def Binding.leftLevel (binding : Binding) : Nat :=
  match binding.associativity with
  | .left => binding.level
  | .right => binding.level + 1

/-- The level of what is never put in parentheses: above every operator. -/
def Level.tightest : Nat := 20

/-- The operators that stand before their operand. -/
def prefixOperators : List String := ["!", "~", "\\", "-", "+", "not"]

/-- The level of the operand of an operator before it, and of the operation it makes. -/
def prefixLevel (op : String) : Nat := if op = "not" then Level.negation else Level.power

/-- The level at which an operand binds, as seen from around it. -/
def Node.bindingLevel : Node → Nat
  | .binaryOp op _ _ | .assignment op _ _ | .patternMatch op _ _ =>
    ((binding? op).map Binding.level).getD Level.tightest
  | .unaryOp op _ _ => prefixLevel op
  | .ternary .. => Level.ternary
  | _ => Level.tightest

/-- The symbols of an operand: in parentheses where its own level is below what is asked for. -/
def enclosed (own asked : Nat) (symbols : List Symbol) : List Symbol :=
  if own < asked then Symbol.leftParen :: (symbols ++ [Symbol.rightParen]) else symbols

/-- The symbols of two operands joined by an operator, each with its own level. -/
def joinedSymbols (op : String) (leftOwn : Nat) (left : List Symbol) (rightOwn : Nat)
    (right : List Symbol) : List Symbol :=
  match binding? op with
  | none => []
  | some binding =>
    enclosed leftOwn binding.leftLevel left ++
      Symbol.operator op :: enclosed rightOwn binding.rightLevel right

/-- The symbols of an operation, with no parentheses but those it needs. Other trees have none. -/
def Node.symbols : Node → List Symbol
  | .number spelling => [.of .number spelling]
  | .var .scalar name => [.of (.var .scalar) (Sigil.scalar.text ++ name)]
  | .binaryOp op left right =>
    joinedSymbols op left.bindingLevel left.symbols right.bindingLevel right.symbols
  | .assignment op left right =>
    joinedSymbols op left.bindingLevel left.symbols right.bindingLevel right.symbols
  | .patternMatch op left right =>
    joinedSymbols op left.bindingLevel left.symbols right.bindingLevel right.symbols
  | .unaryOp op operand false =>
    Symbol.operator op :: enclosed operand.bindingLevel (prefixLevel op) operand.symbols
  | .ternary condition whenTrue whenFalse =>
    enclosed condition.bindingLevel (Level.ternary + 1) condition.symbols ++
      Symbol.question :: (enclosed whenTrue.bindingLevel Level.lowest whenTrue.symbols ++
        Symbol.colon :: enclosed whenFalse.bindingLevel Level.ternary whenFalse.symbols)
  | _ => []

/-- A number or a scalar variable. -/
inductive Node.IsLeaf : Node → Prop
  | number (spelling : String) : IsLeaf (.number spelling)
  | scalar (name : String) : IsLeaf (.var .scalar name)

/-- A tree of operators over leaves. -/
inductive Node.IsOperation : Node → Prop
  | leaf {leaf : Node} : leaf.IsLeaf → IsOperation leaf
  | joined {op : String} {binding : Binding} {left right : Node} :
      binding? op = some binding → IsOperation left → IsOperation right →
        IsOperation (.binary op left right)
  | leading {op : String} {operand : Node} :
      op ∈ prefixOperators → IsOperation operand → IsOperation (.leading op operand)
  | chosen {condition whenTrue whenFalse : Node} :
      IsOperation condition → IsOperation whenTrue → IsOperation whenFalse →
        IsOperation (.ternary condition whenTrue whenFalse)

/-! ## Operators -/

/-- Every binary operator. -/
def binaryOperators : List String := assignmentOperators ++ bindingTable.flatMap Prod.fst

theorem mem_binaryOperators {op : String} {binding : Binding}
    (binds : binding? op = some binding) : op ∈ binaryOperators := by
  simp only [binding?] at binds
  split at binds
  · next assigns => exact List.mem_append_left _ (List.contains_iff_mem.mp assigns)
  · obtain ⟨row, found, -⟩ := Option.map_eq_some_iff.mp binds
    have listed := List.find?_some found
    exact List.mem_append_right _ (List.mem_flatMap.mpr
      ⟨row, List.mem_of_find?_eq_some found, List.contains_iff_mem.mp listed⟩)

/-- What the tables settle about a binding: no operator binds at the level of `not` or of the
ternary, and the operators of one level group to one side. -/
structure Binding.Regular (binding : Binding) : Prop where
  lowest_le : Level.lowest ≤ binding.level
  lt_tightest : binding.level < Level.tightest
  ne_negation : binding.level ≠ Level.negation
  ne_ternary : binding.level ≠ Level.ternary
  right_iff : binding.associativity = .right ↔
    (binding.level = Level.assignment ∨ binding.level = Level.power)

instance (binding : Binding) : Decidable binding.Regular :=
  decidable_of_iff (Level.lowest ≤ binding.level ∧ binding.level < Level.tightest ∧
      binding.level ≠ Level.negation ∧ binding.level ≠ Level.ternary ∧
      (binding.associativity = .right ↔
        (binding.level = Level.assignment ∨ binding.level = Level.power)))
    ⟨fun ⟨a, b, c, d, e⟩ => ⟨a, b, c, d, e⟩, fun ⟨a, b, c, d, e⟩ => ⟨a, b, c, d, e⟩⟩

theorem Binding.regular {op : String} {binding : Binding} (binds : binding? op = some binding) :
    binding.Regular := by
  have every : ∀ op ∈ binaryOperators, ∀ binding ∈ binding? op, binding.Regular := by
    decide +kernel
  exact every op (mem_binaryOperators binds) binding binds

theorem Symbol.category_operator {op : String} {binding : Binding}
    (binds : binding? op = some binding) : (Symbol.operator op).category = .binaryOperator := by
  have every : ∀ op ∈ binaryOperators, (Symbol.operator op).category = .binaryOperator := by
    decide +kernel
  exact every op (mem_binaryOperators binds)

namespace Binding.Regular

variable {binding other : Binding}

theorem same_side (regular : binding.Regular) (regular' : other.Regular)
    (same : binding.level = other.level) : binding.associativity = other.associativity := by
  have right := regular.right_iff
  have right' := regular'.right_iff
  rw [← same, ← right] at right'
  cases side : binding.associativity <;> cases side' : other.associativity <;>
    simp [side, side'] at right' <;> rfl

end Binding.Regular

theorem Binding.level_le_leftLevel (binding : Binding) : binding.level ≤ binding.leftLevel := by
  simp only [leftLevel]
  split <;> omega

theorem Binding.level_le_rightLevel (binding : Binding) : binding.level ≤ binding.rightLevel := by
  simp only [rightLevel]
  split <;> omega

/-! ## Trees -/

namespace Node

theorem symbols_binary (op : String) (left right : Node) :
    (binary op left right).symbols =
      joinedSymbols op left.bindingLevel left.symbols right.bindingLevel right.symbols := by
  simp only [binary]
  split
  · rfl
  · split <;> rfl

theorem bindingLevel_binary {op : String} {binding : Binding}
    (binds : binding? op = some binding) (left right : Node) :
    (binary op left right).bindingLevel = binding.level := by
  simp only [binary]
  split
  · simp only [bindingLevel, binds, Option.map_some, Option.getD_some]
  · split <;> simp only [bindingLevel, binds, Option.map_some, Option.getD_some]

theorem IsLeaf.bindingLevel_eq {leaf : Node} (isLeaf : leaf.IsLeaf) :
    leaf.bindingLevel = Level.tightest := by
  cases isLeaf <;> rfl

/-- An operation is never looser than every operator. -/
theorem IsOperation.lowest_le {tree : Node} (operation : tree.IsOperation) :
    Level.lowest ≤ tree.bindingLevel := by
  cases operation with
  | leaf isLeaf => rw [isLeaf.bindingLevel_eq]; decide
  | joined binds _ _ =>
    rw [bindingLevel_binary binds]
    exact (Binding.regular binds).lowest_le
  | leading _ _ =>
    simp only [Node.leading, bindingLevel, prefixLevel]
    split <;> decide
  | chosen _ _ _ => exact (by decide : Level.lowest ≤ Level.ternary)

end Node

/-! ## Lexemes -/

/-- A tree stands as lexemes where an operand of level `asked` is asked for: in parentheses when
its own level is below that. -/
inductive Written : Nat → Node → List Lexeme → Prop
  | grouped {asked : Nat} {tree : Node} {opener closer : Lexeme} {lexemes : List Lexeme} :
      tree.bindingLevel < asked → opener.symbol = .leftParen → closer.symbol = .rightParen →
        Written Level.lowest tree lexemes → Written asked tree (opener :: (lexemes ++ [closer]))
  | leaf {asked : Nat} {tree : Node} {lexeme : Lexeme} :
      tree.IsLeaf → tree.symbols = [lexeme.symbol] → Written asked tree [lexeme]
  | joined {asked : Nat} {op : Lexeme} {binding : Binding} {left right : Node}
      {first second : List Lexeme} :
      binding? op.text = some binding → op.symbol = .operator op.text → asked ≤ binding.level →
        Written binding.leftLevel left first → Written binding.rightLevel right second →
          Written asked (.binary op.text left right) (first ++ op :: second)
  | leading {asked : Nat} {op : Lexeme} {operand : Node} {lexemes : List Lexeme} :
      op.text ∈ prefixOperators → op.symbol = .operator op.text → asked ≤ prefixLevel op.text →
        Written (prefixLevel op.text) operand lexemes →
          Written asked (.leading op.text operand) (op :: lexemes)
  | chosen {asked : Nat} {question colon : Lexeme} {condition whenTrue whenFalse : Node}
      {first second third : List Lexeme} :
      question.symbol = .question → colon.symbol = .colon → asked ≤ Level.ternary →
        Written (Level.ternary + 1) condition first → Written Level.lowest whenTrue second →
          Written Level.ternary whenFalse third →
            Written asked (.ternary condition whenTrue whenFalse)
              (first ++ question :: (second ++ colon :: third))

theorem Lexeme.of_symbol {lexeme : Lexeme} {symbol : Symbol} (same : lexeme.symbol = symbol) :
    lexeme.token.kind = symbol.kind ∧ lexeme.text = symbol.text ∧
      lexeme.category = symbol.category := by
  subst same
  exact ⟨rfl, rfl, rfl⟩

/-- An operand is written where a level is asked for when the tree alone is written at every level
that it reaches. -/
theorem Written.of_enclosed {tree : Node} {asked : Nat} {lexemes : List Lexeme}
    (lowest : Level.lowest ≤ tree.bindingLevel)
    (bare : ∀ {asked : Nat} {lexemes : List Lexeme}, asked ≤ tree.bindingLevel →
      lexemes.map Lexeme.symbol = tree.symbols → Written asked tree lexemes)
    (same : lexemes.map Lexeme.symbol = enclosed tree.bindingLevel asked tree.symbols) :
    Written asked tree lexemes := by
  simp only [enclosed] at same
  split at same
  · next below =>
    obtain ⟨opener, rest, rfl, opens, same⟩ := List.map_eq_cons_iff.mp same
    obtain ⟨inner, last, rfl, inside, same⟩ := List.map_eq_append_iff.mp same
    obtain ⟨closer, after, rfl, closes, same⟩ := List.map_eq_cons_iff.mp same
    obtain rfl := List.map_eq_nil_iff.mp same
    exact .grouped below opens closes (bare lowest inside)
  · next reached => exact bare (Nat.le_of_not_lt reached) same

/-- Lexemes with the symbols of an operation write it. -/
theorem Node.IsOperation.written {tree : Node} (operation : tree.IsOperation) {asked : Nat}
    {lexemes : List Lexeme} (reached : asked ≤ tree.bindingLevel)
    (same : lexemes.map Lexeme.symbol = tree.symbols) : Written asked tree lexemes := by
  induction operation generalizing asked lexemes with
  | @leaf leaf isLeaf =>
    obtain ⟨symbol, single⟩ : ∃ symbol, leaf.symbols = [symbol] := by
      cases isLeaf <;> exact ⟨_, rfl⟩
    rw [single] at same
    obtain ⟨lexeme, rest, rfl, spelled, same⟩ := List.map_eq_cons_iff.mp same
    obtain rfl := List.map_eq_nil_iff.mp same
    exact .leaf isLeaf (by rw [single, spelled])
  | @joined op binding left right binds isLeft isRight ihLeft ihRight =>
    rw [bindingLevel_binary binds] at reached
    simp only [symbols_binary, joinedSymbols, binds] at same
    obtain ⟨first, rest, rfl, before, same⟩ := List.map_eq_append_iff.mp same
    obtain ⟨symbol, second, rfl, spelled, after⟩ := List.map_eq_cons_iff.mp same
    obtain rfl : symbol.text = op := (Lexeme.of_symbol spelled).2.1
    exact .joined binds spelled reached (.of_enclosed isLeft.lowest_le ihLeft before)
      (.of_enclosed isRight.lowest_le ihRight after)
  | @leading op operand listed isOperand ih =>
    simp only [Node.leading, symbols] at same
    obtain ⟨symbol, rest, rfl, spelled, after⟩ := List.map_eq_cons_iff.mp same
    obtain rfl : symbol.text = op := (Lexeme.of_symbol spelled).2.1
    exact .leading listed spelled reached (.of_enclosed isOperand.lowest_le ih after)
  | chosen isCondition isTrue isFalse ihCondition ihTrue ihFalse =>
    simp only [symbols] at same
    obtain ⟨first, rest, rfl, before, same⟩ := List.map_eq_append_iff.mp same
    obtain ⟨question, rest, rfl, asks, same⟩ := List.map_eq_cons_iff.mp same
    obtain ⟨second, rest, rfl, between, same⟩ := List.map_eq_append_iff.mp same
    obtain ⟨colon, third, rfl, separates, after⟩ := List.map_eq_cons_iff.mp same
    exact .chosen asks separates reached (.of_enclosed isCondition.lowest_le ihCondition before)
      (.of_enclosed isTrue.lowest_le ihTrue between)
      (.of_enclosed isFalse.lowest_le ihFalse after)

/-! ## What searches see -/

/-- Whether a search takes no notice of a role: it is no bracket and separates nothing. -/
def Category.isInert (category : Category) : Bool :=
  !category.isOpener && !category.isCloser && category ≠ .comma && category ≠ .question &&
    category ≠ .colon

theorem Node.IsLeaf.category {leaf : Node} {lexeme : Lexeme} (isLeaf : leaf.IsLeaf)
    (spelled : leaf.symbols = [lexeme.symbol]) :
    lexeme.category = .literal ∨ lexeme.category = .var := by
  cases isLeaf with
  | number spelling => exact .inl (Lexeme.of_symbol (List.cons.inj spelled).1.symm).2.2
  | scalar name => exact .inr (Lexeme.of_symbol (List.cons.inj spelled).1.symm).2.2

/-- Signs are told from binary operators by where they stand, not by their role. -/
theorem Symbol.category_sign {op : String} (listed : op ∈ prefixOperators) :
    (Symbol.operator op).category =
      if op = "-" ∨ op = "+" then .binaryOperator else .unaryOperator := by
  have every : ∀ op ∈ prefixOperators, (Symbol.operator op).category =
      if op = "-" ∨ op = "+" then .binaryOperator else .unaryOperator := by
    decide +kernel
  exact every op listed

theorem Nested.inert {lexeme : Lexeme} {rest : List Lexeme}
    (inert : lexeme.category.isInert = true) (nested : Nested rest) : Nested (lexeme :: rest) := by
  simp only [Category.isInert, Bool.and_eq_true, Bool.not_eq_true'] at inert
  exact .plain inert.1.1.1.1 inert.1.1.1.2 nested

theorem cutAtColon?_inert {lexeme : Lexeme} (inert : lexeme.category.isInert = true)
    (pending depth : Nat) (rest : List Lexeme) :
    cutAtColon? pending depth (lexeme :: rest) =
      (cutAtColon? pending depth rest).map (Cut.push lexeme) := by
  simp only [Category.isInert, Bool.and_eq_true, Bool.not_eq_true', decide_eq_true_eq] at inert
  obtain ⟨⟨⟨⟨opens, closes⟩, -⟩, question⟩, colon⟩ := inert
  simp only [cutAtColon?, question, colon, and_false, ↓reduceIte,
    Category.depthAfter?_plain opens closes]

/-- A question mark has the search pass over one colon. -/
theorem cutAtColon?_question {lexeme : Lexeme} (asks : lexeme.category = .question)
    (pending : Nat) (rest : List Lexeme) :
    cutAtColon? pending 0 (lexeme :: rest) =
      (cutAtColon? (pending + 1) 0 rest).map (Cut.push lexeme) := by
  simp only [cutAtColon?, asks, and_self, ↓reduceIte, Category.depthAfter?, Category.isOpener,
    Category.isCloser, Bool.false_eq_true]

theorem cutAtColon?_colon {lexeme : Lexeme} (separates : lexeme.category = .colon)
    (pending : Nat) (rest : List Lexeme) :
    cutAtColon? (pending + 1) 0 (lexeme :: rest) =
      (cutAtColon? pending 0 rest).map (Cut.push lexeme) := by
  simp only [cutAtColon?, separates, reduceCtorEq, and_self, and_false, ↓reduceIte,
    Nat.add_eq_zero_iff, Nat.one_ne_zero, Nat.add_sub_cancel, Category.depthAfter?,
    Category.isOpener, Category.isCloser, Bool.false_eq_true]

namespace Written

variable {asked : Nat} {tree : Node} {lexemes : List Lexeme}

theorem inert_leaf {lexeme : Lexeme} (isLeaf : tree.IsLeaf)
    (spelled : tree.symbols = [lexeme.symbol]) : lexeme.category.isInert = true := by
  rcases isLeaf.category spelled with same | same <;> rw [same] <;> rfl

theorem inert_operator {op : Lexeme} {binding : Binding} (binds : binding? op.text = some binding)
    (spelled : op.symbol = .operator op.text) : op.category.isInert = true := by
  rw [(Lexeme.of_symbol spelled).2.2, Symbol.category_operator binds]
  rfl

theorem inert_sign {op : Lexeme} (listed : op.text ∈ prefixOperators)
    (spelled : op.symbol = .operator op.text) : op.category.isInert = true := by
  rw [(Lexeme.of_symbol spelled).2.2, Symbol.category_sign listed]
  split <;> rfl

theorem partner {opener closer : Lexeme} (opens : opener.symbol = .leftParen)
    (closes : closer.symbol = .rightParen) :
    opener.category.closer? = some closer.category := by
  rw [(Lexeme.of_symbol opens).2.2, (Lexeme.of_symbol closes).2.2]
  rfl

/-- What is written is properly nested. -/
theorem nested (written : Written asked tree lexemes) : Nested lexemes := by
  induction written with
  | grouped _ opens closes _ ih => exact .single (partner opens closes) ih
  | leaf isLeaf spelled => exact .inert (inert_leaf isLeaf spelled) .nil
  | joined binds spelled _ _ _ ihLeft ihRight =>
    exact ihLeft.append (.inert (inert_operator binds spelled) ihRight)
  | leading listed spelled _ _ ih => exact .inert (inert_sign listed spelled) ih
  | chosen asks separates _ _ _ _ ihCondition ihTrue ihFalse =>
    have question := (Lexeme.of_symbol asks).2.2
    have colon := (Lexeme.of_symbol separates).2.2
    exact ihCondition.append (.plain (by rw [question]; rfl) (by rw [question]; rfl)
      (ihTrue.append (.plain (by rw [colon]; rfl) (by rw [colon]; rfl) ihFalse)))

/-- What is written holds no comma. -/
theorem ne_comma (written : Written asked tree lexemes) :
    ∀ lexeme ∈ lexemes, lexeme.category ≠ .comma := by
  have inert {lexeme : Lexeme} (inert : lexeme.category.isInert = true) :
      lexeme.category ≠ .comma := by
    intro same
    rw [same] at inert
    contradiction
  have symbol {lexeme : Lexeme} {symbol : Symbol} (same : lexeme.symbol = symbol)
      (other : symbol.category ≠ .comma) : lexeme.category ≠ .comma := by
    rwa [(Lexeme.of_symbol same).2.2]
  induction written with
  | grouped _ opens closes _ ih =>
    simp only [List.mem_cons, List.mem_append, List.not_mem_nil, or_false]
    rintro lexeme (rfl | member | rfl)
    · exact symbol opens (by decide)
    · exact ih lexeme member
    · exact symbol closes (by decide)
  | leaf isLeaf spelled =>
    simp only [List.mem_singleton, forall_eq]
    exact inert (inert_leaf isLeaf spelled)
  | joined binds spelled _ _ _ ihLeft ihRight =>
    simp only [List.mem_cons, List.mem_append]
    rintro lexeme (member | rfl | member)
    · exact ihLeft lexeme member
    · exact inert (inert_operator binds spelled)
    · exact ihRight lexeme member
  | leading listed spelled _ _ ih =>
    simp only [List.mem_cons]
    rintro lexeme (rfl | member)
    · exact inert (inert_sign listed spelled)
    · exact ih lexeme member
  | chosen asks separates _ _ _ _ ihCondition ihTrue ihFalse =>
    simp only [List.mem_cons, List.mem_append]
    rintro lexeme (member | rfl | member | rfl | member)
    · exact ihCondition lexeme member
    · exact symbol asks (by decide)
    · exact ihTrue lexeme member
    · exact symbol separates (by decide)
    · exact ihFalse lexeme member

/-- The search for a colon passes over what is written. -/
theorem cutAtColon?_append (written : Written asked tree lexemes) (pending : Nat)
    (rest : List Lexeme) :
    cutAtColon? pending 0 (lexemes ++ rest) =
      (cutAtColon? pending 0 rest).map (Cut.pushAll lexemes) := by
  induction written generalizing pending rest with
  | grouped _ opens closes inner _ =>
    simp only [List.cons_append, List.append_assoc, List.nil_append,
      cutAtColon?_group (partner opens closes) inner.nested]
  | leaf isLeaf spelled =>
    simp only [List.cons_append, List.nil_append, cutAtColon?_inert (inert_leaf isLeaf spelled)]
    rfl
  | joined binds spelled _ _ _ ihLeft ihRight =>
    simp only [List.append_assoc, List.cons_append, ihLeft, ihRight,
      cutAtColon?_inert (inert_operator binds spelled), Option.map_map, Cut.push_comp_pushAll,
      Cut.pushAll_comp_pushAll]
  | leading listed spelled _ _ ih =>
    simp only [List.cons_append, ih, cutAtColon?_inert (inert_sign listed spelled),
      Option.map_map, Cut.push_comp_pushAll]
  | chosen asks separates _ _ _ _ ihCondition ihTrue ihFalse =>
    simp only [List.append_assoc, List.cons_append, ihCondition, ihTrue, ihFalse,
      cutAtColon?_question (Lexeme.of_symbol asks).2.2,
      cutAtColon?_colon (Lexeme.of_symbol separates).2.2, Option.map_map,
      Cut.push_comp_pushAll, Cut.pushAll_comp_pushAll]

/-- What is written begins with a lexeme that is no brace. -/
theorem head (written : Written asked tree lexemes) :
    ∃ first rest, lexemes = first :: rest ∧ first.category ≠ .leftBrace := by
  have inert {lexeme : Lexeme} (inert : lexeme.category.isInert = true) :
      lexeme.category ≠ .leftBrace := by
    intro same
    rw [same] at inert
    contradiction
  induction written with
  | grouped _ opens _ _ _ =>
    refine ⟨_, _, rfl, ?_⟩
    rw [(Lexeme.of_symbol opens).2.2]
    decide
  | leaf isLeaf spelled => exact ⟨_, _, rfl, inert (inert_leaf isLeaf spelled)⟩
  | joined _ _ _ _ _ ihLeft _ =>
    obtain ⟨first, rest, rfl, other⟩ := ihLeft
    exact ⟨first, _, rfl, other⟩
  | leading listed spelled _ _ _ => exact ⟨_, _, rfl, inert (inert_sign listed spelled)⟩
  | chosen _ _ _ _ _ _ ihCondition _ _ =>
    obtain ⟨first, rest, rfl, other⟩ := ihCondition
    exact ⟨first, _, rfl, other⟩

end Written

end SigilScript
