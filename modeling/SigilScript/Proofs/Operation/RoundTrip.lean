import SigilScript.Proofs.Grammar.Complete
import SigilScript.Proofs.Node.Faults
import SigilScript.Proofs.Operation.Symbols

/-! # Reading operations back

What is written of an operation is read back as the operation. The reader climbs: an operand of
the level that its position asks for is taken whole, whatever operators stand behind it, as long
as they accept an operand of that level on their left. A chain of leaves and operators without
parentheses is what some operation is written as, so its tree is written as the chain again.
-/

namespace SigilScript

/-- What may stand behind an operand: nothing, the end of a group or of a branch, the question
mark of a ternary above a level, or an operator whose binding is admitted. -/
def Stands (level : Nat) (admitted : Binding → Prop) : List Lexeme → Prop
  | [] => True
  | next :: _ =>
    match next.category with
    | .rightParen | .colon => True
    | .question => Level.ternary < level
    | .binaryOperator => ∃ binding, binding? next.text = some binding ∧ admitted binding
    | _ => False

/-- What stands behind an operand accepts an operand of this level on its left. -/
def Accepts (asked : Nat) (rest : List Lexeme) : Prop :=
  Stands asked (fun binding => binding.leftLevel ≤ asked) rest

/-- What stands behind an operand is left over by a climb at this level. -/
def Halts (bound : Nat) (rest : List Lexeme) : Prop :=
  Stands bound (fun binding => binding.level < bound) rest

theorem Stands.imp {low high : Nat} {admitted admitted' : Binding → Prop} {rest : List Lexeme}
    (stands : Stands low admitted rest) (le : low ≤ high)
    (implied : ∀ {op : String} {binding : Binding}, binding? op = some binding →
      admitted binding → admitted' binding) : Stands high admitted' rest := by
  cases rest with
  | nil => trivial
  | cons next rest =>
    simp only [Stands] at stands ⊢
    split at stands
    · trivial
    · trivial
    · exact Nat.lt_of_lt_of_le stands le
    · obtain ⟨binding, binds, admits⟩ := stands
      exact ⟨binding, binds, implied binds admits⟩
    · exact stands

theorem Accepts.nil (asked : Nat) : Accepts asked [] := trivial

theorem Halts.nil (bound : Nat) : Halts bound [] := trivial

theorem Accepts.mono {low high : Nat} {rest : List Lexeme} (accepts : Accepts low rest)
    (le : low ≤ high) : Accepts high rest :=
  accepts.imp le fun _ bound => Nat.le_trans bound le

/-- Behind an operand at the right end of a tree, a climb halts at what accepts the tree, if no
operator of the tree's level groups to the left. -/
theorem Accepts.halts {level : Nat} {rest : List Lexeme} (accepts : Accepts level rest)
    (right : ∀ {op : String} {binding : Binding}, binding? op = some binding →
      binding.level = level → binding.associativity = .right) : Halts level rest := by
  refine accepts.imp (Nat.le_refl _) fun {op binding} binds bound => ?_
  have grouped := right binds
  simp only [Binding.leftLevel] at bound
  split at bound
  · next left =>
    rw [left] at grouped
    apply Nat.lt_of_le_of_ne bound
    intro same
    have both := grouped same
    contradiction
  · exact bound

/-- Behind the right operand of an operator, a climb halts at what accepts the whole operation. -/
theorem Accepts.halts_right {op : String} {binding : Binding} (binds : binding? op = some binding)
    {rest : List Lexeme} (accepts : Accepts binding.level rest) :
    Halts binding.rightLevel rest := by
  simp only [Binding.rightLevel]
  split
  · exact accepts.imp (Nat.le_succ _) fun {_ other} _ bound =>
      Nat.lt_succ_of_le (Nat.le_trans other.level_le_leftLevel bound)
  · next right =>
    apply accepts.halts
    intro op' other binds' same
    rw [(Binding.regular binds').same_side (Binding.regular binds) same, right]

/-- A scalar variable is spelled with its sigil. -/
theorem Node.ofSpelling_scalar (name : String) :
    Node.ofSpelling .scalar (Sigil.scalar.text ++ name) = .var .scalar name := by
  have spelled : (Sigil.scalar.text ++ name).toList = '$' :: name.toList := by
    rw [String.toList_append]
    rfl
  simp only [Node.ofSpelling, spelled, Sigil.char, ↓reduceIte, String.ofList_toList]

/-- No operator of the level of an operator before an operand groups to the left. -/
theorem prefixLevel_right {sign op : String} {binding : Binding}
    (binds : binding? op = some binding) (same : binding.level = prefixLevel sign) :
    binding.associativity = .right := by
  have regular := Binding.regular binds
  simp only [prefixLevel] at same
  split at same
  · exact absurd same regular.ne_negation
  · exact regular.right_iff.mpr (.inr same)

namespace Grammar

theorem climb_of_halts {bound : Nat} {rest : List Lexeme} (halts : Halts bound rest)
    (node : Node) : full.climb bound node rest = (node, rest) := by
  rw [full_climb]
  cases rest with
  | nil => rfl
  | cons next rest =>
    simp only [Halts, Stands] at halts
    simp only [readClimb]
    split at halts
    · next same => simp only [same]
    · next same => simp only [same]
    · next same => simp only [same, halts, ↓reduceIte]
    · next same =>
      obtain ⟨binding, binds, below⟩ := halts
      have loose : ¬ bound ≤ binding.level := by omega
      simp only [same, binds, Option.filter_some, loose, decide_false, Bool.false_eq_true,
        ↓reduceIte]
    · contradiction

theorem chain_of_accepts {asked : Nat} {rest : List Lexeme} (accepts : Accepts asked rest)
    (node : Node) : full.readChain node rest = (node, rest) := by
  cases rest with
  | nil => rfl
  | cons next rest =>
    simp only [Accepts, Stands] at accepts
    simp only [readChain]
    split at accepts
    · next same => simp only [same]
    · next same => simp only [same]
    · next same => simp only [same]
    · next same => simp only [same]
    · contradiction

variable {op : Lexeme} {bound asked : Nat} {tree : Node} {lexemes rest : List Lexeme}

theorem readRight_eq (lexeme : Lexeme) :
    full.readRight op bound (lexeme :: rest) =
      full.readClimb bound (full.readOperand lexeme rest).1 (full.readOperand lexeme rest).2 := by
  rw [readRight, full_operation]
  rfl

/-- A primary with nothing of its own behind it is climbed from at once. -/
theorem readRight_atom {lexeme : Lexeme} {primary : Node} {after : List Lexeme}
    (unary : lexeme.category ≠ .unaryOperator) (binary : lexeme.category ≠ .binaryOperator)
    (read : full.readPrimary lexeme rest = (primary, after)) (accepts : Accepts asked after) :
    full.readRight op bound (lexeme :: rest) = full.climb bound primary after := by
  have operand : full.readOperand lexeme rest = (primary, after) := by
    unfold readOperand
    split
    · contradiction
    · contradiction
    · simp only [readAtom, read, chain_of_accepts accepts]
  rw [readRight_eq, operand, full_climb]

/-- What reads as an operand reads as a whole. -/
theorem readWhole_of_readRight {lexeme : Lexeme} (anchor : Position)
    (read : full.readRight op Level.lowest (lexeme :: rest) = (tree, [])) :
    full.readWhole anchor (lexeme :: rest) = tree := by
  rw [readRight, full_operation] at read
  simp only [readWhole, read, nextIs, List.head?_nil, Option.any_none, Bool.false_eq_true,
    ↓reduceIte, Node.finish]

/-- What is written of a tree reads as a whole, if its operand reads. -/
theorem readWhole_of_written (written : Written asked tree lexemes) (anchor : Position)
    (read : full.readRight op Level.lowest (lexemes ++ []) = full.climb Level.lowest tree []) :
    full.readWhole anchor lexemes = tree := by
  obtain ⟨first, more, rfl, -⟩ := written.head
  rw [List.append_nil, climb_of_halts (.nil _)] at read
  exact readWhole_of_readRight anchor read

/-- A tree in parentheses is read from between them. -/
theorem readPrimary_grouped {opener closer : Lexeme} (opens : opener.symbol = .leftParen)
    (closes : closer.symbol = .rightParen) (inner : Written asked tree lexemes)
    (inside : full.readWhole opener.position lexemes = tree) :
    full.readPrimary opener (lexemes ++ closer :: rest) = (tree, rest) := by
  obtain ⟨kind, -, category⟩ := Lexeme.of_symbol opens
  have partner := Written.partner opens closes
  have noComma : hasTopLevel lexemes .comma = false := by
    rw [hasTopLevel, cutAtTopLevel?_eq_none fun lexeme member =>
      decide_eq_false (inner.ne_comma lexeme member)]
    rfl
  have nonempty : lexemes.isEmpty = false := by
    obtain ⟨first, more, rfl, -⟩ := inner.head
    rfl
  simp only [readPrimary, kind, category, Symbol.leftParen, Symbol.of, Token.category,
    readParenthesized, readGroup, takeGroup_nested partner inner.nested, nonempty, noComma,
    full_whole, inside, Bool.false_eq_true, ↓reduceIte]

/-- A leaf is its own primary. -/
theorem readPrimary_leaf {lexeme : Lexeme} (isLeaf : tree.IsLeaf)
    (spelled : tree.symbols = [lexeme.symbol]) :
    full.readPrimary lexeme rest = (tree, rest) := by
  cases isLeaf with
  | number spelling =>
    obtain ⟨kind, text, -⟩ := Lexeme.of_symbol (List.cons.inj spelled).1.symm
    simp only [readPrimary, kind, text, Symbol.of]
  | scalar name =>
    obtain ⟨kind, text, -⟩ := Lexeme.of_symbol (List.cons.inj spelled).1.symm
    simp only [readPrimary, kind, text, Symbol.of, Node.ofSpelling_scalar]

/-- A climb takes in an operator that binds tightly enough, with its right operand. -/
theorem climb_joined {symbol : Lexeme} {binding : Binding} {left right : Node}
    {after : List Lexeme} (category : symbol.category = .binaryOperator)
    (binds : binding? symbol.text = some binding) (le : bound ≤ binding.level)
    (read : full.readRight symbol binding.rightLevel rest = (right, after)) :
    full.climb bound left (symbol :: rest) =
      full.climb bound (.binary symbol.text left right) after := by
  have admitted : (binding? symbol.text).filter (fun other => bound ≤ other.level) =
      some binding := by
    simp only [binds, Option.filter_some, le, decide_true, ↓reduceIte]
  have unfolded : full.climb bound left (symbol :: rest) =
      full.readClimb bound left (symbol :: rest) := by
    rw [full_climb]
  rw [unfolded, readClimb, category]
  simp only [admitted, read]

/-- An operator before an operand takes the operand that its level reads. -/
theorem readOperand_leading {symbol next : Lexeme} {more after : List Lexeme} {operand : Node}
    (listed : symbol.text ∈ prefixOperators)
    (category : symbol.category =
      if symbol.text = "-" ∨ symbol.text = "+" then .binaryOperator else .unaryOperator)
    (noBrace : next.category ≠ .leftBrace)
    (read : full.readRight symbol (prefixLevel symbol.text) (next :: more) = (operand, after)) :
    full.readOperand symbol (next :: more) = (.leading symbol.text operand, after) := by
  have steps : ∀ op ∈ prefixOperators, (op = "++" || op = "--") = false := by decide
  unfold readOperand
  rw [category]
  by_cases sign : symbol.text = "-" ∨ symbol.text = "+"
  · have unnamed : symbol.text ≠ "not" := by
      rintro named
      simp [named] at sign
    simp only [prefixLevel, unnamed, ↓reduceIte, readRight] at read
    rcases sign with minus | plus
    · simp [minus, readLeading, read]
    · simp [plus, readLeading, read, noBrace]
  · by_cases named : symbol.text = "not"
    · simp only [prefixLevel, named, ↓reduceIte] at read
      simp [named, read]
    · simp only [prefixLevel, named, ↓reduceIte, readRight] at read
      simp [sign, named, readLeading, steps _ listed, read]

/-- A climb that is loose enough takes in a ternary. -/
theorem climb_chosen {question : Lexeme} {condition ternary : Node} {after : List Lexeme}
    (category : question.category = .question) (le : bound ≤ Level.ternary)
    (read : full.readTernary condition question rest = (ternary, after)) :
    full.climb bound condition (question :: rest) = full.climb bound ternary after := by
  have unfolded : full.climb bound condition (question :: rest) =
      full.readClimb bound condition (question :: rest) := by
    rw [full_climb]
  rw [unfolded, readClimb, category]
  simp only [Nat.not_lt.mpr le, ↓reduceIte, read]

/-- The branches of a ternary are what is written on the two sides of its colon. -/
theorem readTernary_written {question colon : Lexeme} {level : Nat} (condition : Node)
    {whenTrue whenFalse : Node} {second third after : List Lexeme}
    (inner : Written level whenTrue second) (separates : colon.category = .colon)
    (branch : full.readWhole question.position second = whenTrue)
    (last : Written asked whenFalse third)
    (read : full.readRight op Level.ternary (third ++ rest) = (whenFalse, after)) :
    full.readTernary condition question (second ++ colon :: (third ++ rest)) =
      (.ternary condition whenTrue whenFalse, after) := by
  have cut : cutAtColon? 0 0 (second ++ colon :: (third ++ rest)) =
      some ⟨second, colon, third ++ rest⟩ := by
    rw [inner.cutAtColon?_append]
    simp [cutAtColon?, separates, Cut.pushAll]
  have nonempty : second.isEmpty = false := by
    obtain ⟨first, more, rfl, -⟩ := inner.head
    rfl
  obtain ⟨first, more, rfl, -⟩ := last.head
  rw [List.cons_append] at read cut ⊢
  rw [readRight] at read
  simp only [readTernary, cut, readBranch, nonempty, Bool.false_eq_true, ↓reduceIte, full_whole,
    branch, read]

/-- What is written of a tree where a level is asked for is read as the tree, by a climb that is
at most as tight and before what accepts an operand of that level. -/
theorem readRight_written (written : Written asked tree lexemes) (le : bound ≤ asked)
    (accepts : Accepts asked rest) :
    full.readRight op bound (lexemes ++ rest) = full.climb bound tree rest := by
  induction written generalizing bound rest op with
  | @grouped asked tree opener closer lexemes below opens closes inner ih =>
    have category := (Lexeme.of_symbol opens).2.2
    have read : full.readRight op Level.lowest (lexemes ++ []) =
        full.climb Level.lowest tree [] := ih (Nat.le_refl _) (.nil _)
    have inside := readWhole_of_written inner opener.position read
    rw [List.cons_append, List.append_assoc]
    exact readRight_atom (by rw [category]; decide) (by rw [category]; decide)
      (readPrimary_grouped opens closes inner inside) accepts
  | @leaf asked tree lexeme isLeaf spelled =>
    have unary : lexeme.category ≠ .unaryOperator := by
      rcases isLeaf.category spelled with same | same <;> rw [same] <;> decide
    have binary : lexeme.category ≠ .binaryOperator := by
      rcases isLeaf.category spelled with same | same <;> rw [same] <;> decide
    exact readRight_atom unary binary (readPrimary_leaf isLeaf spelled) accepts
  | @joined asked symbol binding left right first second binds spelled reached _ _ ihLeft
      ihRight =>
    have category := (Lexeme.of_symbol spelled).2.2
    rw [Symbol.category_operator binds] at category
    have before : Accepts binding.leftLevel (symbol :: (second ++ rest)) := by
      simp only [Accepts, Stands, category]
      exact ⟨binding, binds, Nat.le_refl _⟩
    have accepts := accepts.mono reached
    have read : full.readRight symbol binding.rightLevel (second ++ rest) =
        full.climb binding.rightLevel right rest :=
      ihRight (Nat.le_refl _) (accepts.mono binding.level_le_rightLevel)
    rw [climb_of_halts (accepts.halts_right binds)] at read
    calc full.readRight op bound (first ++ symbol :: second ++ rest)
        = full.readRight op bound (first ++ symbol :: (second ++ rest)) := by
          rw [List.append_assoc, List.cons_append]
      _ = full.climb bound left (symbol :: (second ++ rest)) :=
          ihLeft (Nat.le_trans (Nat.le_trans le reached) binding.level_le_leftLevel) before
      _ = full.climb bound (.binary symbol.text left right) rest :=
          climb_joined category binds (Nat.le_trans le reached) read
  | @leading asked symbol operand lexemes listed spelled reached inner ih =>
    have category := (Lexeme.of_symbol spelled).2.2
    rw [Symbol.category_sign listed] at category
    have accepts := accepts.mono reached
    have read : full.readRight symbol (prefixLevel symbol.text) (lexemes ++ rest) =
        full.climb (prefixLevel symbol.text) operand rest := ih (Nat.le_refl _) accepts
    rw [climb_of_halts (accepts.halts prefixLevel_right)] at read
    obtain ⟨next, more, rfl, noBrace⟩ := inner.head
    rw [List.cons_append] at read ⊢
    rw [List.cons_append, readRight_eq, readOperand_leading listed category noBrace read,
      full_climb]
  | @chosen asked question colon condition whenTrue whenFalse first second third asks separates
      reached _ inner last ihCondition ihTrue ihFalse =>
    have category : question.category = .question := (Lexeme.of_symbol asks).2.2
    have before :
        Accepts (Level.ternary + 1) (question :: (second ++ colon :: (third ++ rest))) := by
      simp only [Accepts, Stands, category]
      exact Nat.lt_succ_self _
    have accepts := accepts.mono reached
    have between : full.readRight op Level.lowest (second ++ []) =
        full.climb Level.lowest whenTrue [] := ihTrue (Nat.le_refl _) (.nil _)
    have branch := readWhole_of_written inner question.position between
    have read : full.readRight op Level.ternary (third ++ rest) =
        full.climb Level.ternary whenFalse rest := ihFalse (Nat.le_refl _) accepts
    rw [climb_of_halts (accepts.halts fun binds same =>
      absurd same (Binding.regular binds).ne_ternary)] at read
    have ternary := readTernary_written condition inner (Lexeme.of_symbol separates).2.2 branch
      last read
    calc full.readRight op bound (first ++ question :: (second ++ colon :: third) ++ rest)
        = full.readRight op bound (first ++ question :: (second ++ colon :: (third ++ rest))) := by
          simp only [List.append_assoc, List.cons_append]
      _ = full.climb bound condition (question :: (second ++ colon :: (third ++ rest))) :=
          ihCondition (Nat.le_trans (Nat.le_trans le reached) (Nat.le_succ _)) before
      _ = full.climb bound (.ternary condition whenTrue whenFalse) rest :=
          climb_chosen category (Nat.le_trans le reached) ternary

end Grammar

/-- What is written of an operation is parsed as the operation. -/
theorem Node.IsOperation.parsed {tree : Node} (operation : tree.IsOperation) (anchor : Position)
    {lexemes : List Lexeme} (same : lexemes.map Lexeme.symbol = tree.symbols) :
    parseExpression anchor lexemes = tree := by
  have written := operation.written operation.lowest_le same
  obtain ⟨first, -, -, -⟩ := written.head
  have read : Grammar.full.readRight first Level.lowest (lexemes ++ []) =
      Grammar.full.climb Level.lowest tree [] :=
    Grammar.readRight_written written (Nat.le_refl _) (.nil _)
  rw [parseExpression_eq]
  exact Grammar.readWhole_of_written written anchor read

/-- An operation holds no fault. -/
theorem Node.IsOperation.faults_eq {tree : Node} (operation : tree.IsOperation) :
    tree.faults = [] := by
  induction operation with
  | leaf isLeaf => cases isLeaf <;> rfl
  | joined _ _ _ ihLeft ihRight => rw [faults_binary, ihLeft, ihRight, List.append_nil]
  | leading _ _ ih => exact ih
  | chosen _ _ _ ihCondition ihTrue ihFalse =>
    simp only [faults, ihCondition, ihTrue, ihFalse, List.append_nil]

/-! ## Chains -/

/-- Leaves with an operator between each two of them, and no parentheses. -/
inductive IsChain : List Symbol → Prop
  | leaf {leaf : Node} : leaf.IsLeaf → IsChain leaf.symbols
  | snoc {chain : List Symbol} {op : String} {binding : Binding} {leaf : Node} :
      IsChain chain → binding? op = some binding → leaf.IsLeaf →
        IsChain (chain ++ Symbol.operator op :: leaf.symbols)

/-- A tree of binary operators that needs no parentheses. -/
inductive Node.IsJoined : Node → Prop
  | leaf {leaf : Node} : leaf.IsLeaf → IsJoined leaf
  | joined {op : String} {binding : Binding} {left right : Node} :
      binding? op = some binding → IsJoined left → IsJoined right →
        binding.leftLevel ≤ left.bindingLevel → binding.rightLevel ≤ right.bindingLevel →
          IsJoined (.binary op left right)

namespace Node.IsJoined

theorem isOperation {tree : Node} (isJoined : tree.IsJoined) : tree.IsOperation := by
  induction isJoined with
  | leaf isLeaf => exact .leaf isLeaf
  | joined binds _ _ _ _ ihLeft ihRight => exact .joined binds ihLeft ihRight

theorem symbols_joined {op : String} {binding : Binding} {left right : Node}
    (binds : binding? op = some binding) (leftReaches : binding.leftLevel ≤ left.bindingLevel)
    (rightReaches : binding.rightLevel ≤ right.bindingLevel) :
    (binary op left right).symbols = left.symbols ++ Symbol.operator op :: right.symbols := by
  simp only [symbols_binary, joinedSymbols, binds, enclosed, Nat.not_lt.mpr leftReaches,
    Nat.not_lt.mpr rightReaches, ↓reduceIte]

/-- A leaf reaches every level that an operator asks for. -/
theorem reaches_leaf {op : String} {binding : Binding} {leaf : Node}
    (binds : binding? op = some binding) (isLeaf : leaf.IsLeaf) :
    binding.leftLevel ≤ leaf.bindingLevel ∧ binding.rightLevel ≤ leaf.bindingLevel := by
  have below := (Binding.regular binds).lt_tightest
  rw [isLeaf.bindingLevel_eq]
  simp only [Binding.leftLevel, Binding.rightLevel]
  constructor <;> split <;> omega

/-- An operator that does not accept an operation on its left binds at least as tightly as the
right operand of that operation has to. -/
theorem rightLevel_le {op op' : String} {binding binding' : Binding}
    (binds : binding? op = some binding) (binds' : binding? op' = some binding')
    (loose : binding'.level < binding.leftLevel) : binding'.rightLevel ≤ binding.level := by
  have same := (Binding.regular binds).same_side (Binding.regular binds')
  simp only [Binding.leftLevel] at loose
  split at loose
  · simp only [Binding.rightLevel]
    split <;> omega
  · next right =>
    rcases Nat.lt_or_eq_of_le (Nat.le_of_lt_succ loose) with below | level
    · simp only [Binding.rightLevel]
      split <;> omega
    · simp only [Binding.rightLevel, ← same level.symm, right, level, Nat.le_refl]

/-- One more operator and leaf go to the right end of a tree, where they find their place: the new
tree is as tight as the looser of the old one and the operator. -/
theorem extend {tree leaf : Node} {op : String} {binding : Binding} (isJoined : tree.IsJoined)
    (binds : binding? op = some binding) (isLeaf : leaf.IsLeaf) :
    ∃ longer : Node, longer.IsJoined ∧
      longer.symbols = tree.symbols ++ Symbol.operator op :: leaf.symbols ∧
        min binding.level tree.bindingLevel ≤ longer.bindingLevel := by
  have last := (reaches_leaf binds isLeaf).2
  have onTop {tree : Node} (isJoined : tree.IsJoined)
      (accepted : binding.leftLevel ≤ tree.bindingLevel) :
      ∃ longer : Node, longer.IsJoined ∧
        longer.symbols = tree.symbols ++ Symbol.operator op :: leaf.symbols ∧
          min binding.level tree.bindingLevel ≤ longer.bindingLevel := by
    refine ⟨.binary op tree leaf, .joined binds isJoined (.leaf isLeaf) accepted last,
      symbols_joined binds accepted last, ?_⟩
    rw [bindingLevel_binary binds]
    exact Nat.min_le_left _ _
  induction isJoined with
  | leaf isLeaf' => exact onTop (.leaf isLeaf') (reaches_leaf binds isLeaf').1
  | @joined op' binding' left right binds' isLeft isRight leftReaches rightReaches _ ihRight =>
    have isJoined := joined binds' isLeft isRight leftReaches rightReaches
    by_cases accepted : binding.leftLevel ≤ (binary op' left right).bindingLevel
    · exact onTop isJoined accepted
    · rw [bindingLevel_binary binds'] at accepted ⊢
      obtain ⟨longer, isLonger, spelled, level⟩ := ihRight
      have tight := rightLevel_le binds binds' (Nat.lt_of_not_le accepted)
      have reaches : binding'.rightLevel ≤ longer.bindingLevel :=
        Nat.le_trans (Nat.le_min.mpr ⟨tight, rightReaches⟩) level
      refine ⟨.binary op' left longer, .joined binds' isLeft isLonger leftReaches reaches, ?_, ?_⟩
      · rw [symbols_joined binds' leftReaches reaches,
          symbols_joined binds' leftReaches rightReaches, spelled, List.append_assoc,
          List.cons_append]
      · rw [bindingLevel_binary binds']
        exact Nat.min_le_right _ _

end Node.IsJoined

/-- Every chain is what a tree without parentheses is written as. -/
theorem IsChain.joined {chain : List Symbol} (isChain : IsChain chain) :
    ∃ tree : Node, tree.IsJoined ∧ tree.symbols = chain := by
  induction isChain with
  | leaf isLeaf => exact ⟨_, .leaf isLeaf, rfl⟩
  | snoc _ binds isLeaf ih =>
    obtain ⟨tree, isJoined, rfl⟩ := ih
    obtain ⟨longer, isLonger, spelled, -⟩ := isJoined.extend binds isLeaf
    exact ⟨longer, isLonger, spelled⟩

/-- Operations and their writings determine each other: every operation is parsed from what is
written of it, and every chain is what is written of what is parsed from it. -/
theorem operation_round_trip :
    (∀ {tree : Node}, tree.IsOperation → ∀ (anchor : Position) (lexemes : List Lexeme),
      lexemes.map Lexeme.symbol = tree.symbols →
        parseExpression anchor lexemes = tree ∧ (parseExpression anchor lexemes).faults = []) ∧
    ∀ {chain : List Symbol}, IsChain chain → ∀ (anchor : Position) (lexemes : List Lexeme),
      lexemes.map Lexeme.symbol = chain → (parseExpression anchor lexemes).symbols = chain := by
  constructor
  · intro tree operation anchor lexemes same
    rw [operation.parsed anchor same]
    exact ⟨rfl, operation.faults_eq⟩
  · intro chain isChain anchor lexemes same
    obtain ⟨tree, isJoined, rfl⟩ := isChain.joined
    rw [isJoined.isOperation.parsed anchor same]

/-- A sign below a power needs parentheses; a power and an assignment without them group to the
right. -/
theorem operation_round_trip_power :
    parseExpression .start
        ([.leftParen, .operator "-", .of (.var .scalar) "$a", .rightParen, .operator "**",
          .of .number "2"].map (Symbol.lexeme .start)) =
      .binaryOp "**" (.leading "-" (.var .scalar "a")) (.number "2") ∧
    (parseExpression .start
        ([.of (.var .scalar) "$a", .operator "=", .of .number "2", .operator "**", .of .number "3",
          .operator "**", .of (.var .scalar) "$b"].map (Symbol.lexeme .start))).symbols =
      [.of (.var .scalar) "$a", .operator "=", .of .number "2", .operator "**", .of .number "3",
        .operator "**", .of (.var .scalar) "$b"] :=
  ⟨(operation_round_trip.1
      (.joined (by decide : binding? "**" = some ⟨19, .right⟩)
        (.leading (by decide) (.leaf (.scalar "a"))) (.leaf (.number "2"))) .start _
      (by decide +kernel)).1,
    operation_round_trip.2
      (.snoc (.snoc (.snoc (.leaf (.scalar "a")) (by decide : binding? "=" = some ⟨4, .right⟩)
        (.number "2")) (by decide : binding? "**" = some ⟨19, .right⟩) (.number "3"))
        (by decide : binding? "**" = some ⟨19, .right⟩) (.scalar "b")) .start _
      (by decide +kernel)⟩

end SigilScript
