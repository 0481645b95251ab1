import SigilScript.Proofs.Grouping
import SigilScript.Proofs.Scan.Braces

/-! # Elements of lists

Between brackets a list is cut at its commas, and each piece is read alone. Everywhere else one
element is read after the other, each as far as it goes. Both ways make a string of a word before a
fat comma, but not of the same words: a piece is asked whether it is a word, while an element that
is read in its place is an operand, and what operand a word begins is decided by its role. So a word
is a string before a fat comma in every list if it is a name or a builtin, and any other word is one
between brackets alone.
-/

namespace SigilScript

/-! ## What is read of a word -/

/-- No word is spelled as a sign. -/
theorem Category.ofWord_noSign {word : String} (operator : ofWord word = .binaryOperator) :
    word ≠ "+" ∧ word ≠ "-" := by
  constructor
  · rintro rfl
    exact absurd operator (by decide)
  · rintro rfl
    exact absurd operator (by decide)

/-- A word, and the fat comma behind it. -/
structure Lexeme.Keyed (word comma : Lexeme) : Prop where
  isWord : word.isWord = true
  classified : ∃ previous, word = word.token.classify previous
  role : comma.category = .comma
  fat : comma.isFatComma = true

/-- A word is no punctuation. -/
theorem Lexeme.Keyed.plain {word comma : Lexeme} (keyed : word.Keyed comma) :
    word.category.isOpener = false ∧ word.category.isCloser = false ∧ word.category ≠ .comma ∧
      word.category ≠ .terminator := by
  obtain ⟨previous, classified⟩ := keyed.classified
  have kind : word.token.kind = .identifier := of_decide_eq_true keyed.isWord
  have plain := Token.categoryAfter_plain (.inl kind) previous
  have role := Token.categoryAfter_word kind previous
  rw [← Lexeme.category_of_classified classified] at plain role
  refine ⟨plain.1, plain.2, ?_⟩
  rcases role with name | listed
  · rw [name]
    exact ⟨nofun, nofun⟩
  · rw [listed]
    exact Category.ofWord_noMark word.text

/-- What neither a chain nor an operator makes: a string, a list, or a return. -/
def Node.isLone : Node → Bool
  | .string .. | .collection .list _ | .returned _ => true
  | _ => false

theorem binary_not_lone (op : String) (left right : Node) :
    (Node.binary op left right).isLone = false := by
  simp only [Node.binary]
  split
  · rfl
  · split <;> rfl

namespace Grammar

variable {lexeme : Lexeme} {rest left : List Lexeme} {base value : Node} {g : Grammar}

theorem readGroup_not_lone {opener : Lexeme} {inside : List Lexeme → Node}
    (made : ∀ lexemes, (inside lexemes).isLone = false) :
    (readGroup opener rest inside .error).1.isLone = false := by
  simp only [readGroup]
  split
  · exact made _
  · rfl

theorem readArrow_not_lone (arrow : Lexeme) (rest : List Lexeme) :
    (g.readArrow base arrow rest).1.isLone = false := by
  rcases rest with _ | ⟨next, rest⟩
  · rfl
  · simp only [readArrow]
    split
    · exact readGroup_not_lone fun _ => rfl
    · exact readGroup_not_lone fun _ => rfl
    · exact readGroup_not_lone fun _ => rfl
    · rcases rest with _ | ⟨star, rest⟩
      · rfl
      · simp only [readPostfixDeref]
        split
        · rfl
        · split
          · exact readGroup_not_lone fun _ => rfl
          · rfl
    · rfl
    · rfl
    · rfl
    · rfl

theorem indexed_not_lone (opener : Lexeme) (index : Node) :
    (indexed base opener index).isLone = false := by
  simp only [indexed]
  repeat' split
  all_goals rfl

/-- A chain that is a string, a list or a return has no links. -/
theorem chain_lone {base value : Node} {rest left : List Lexeme}
    (read : full.chain base rest = (value, left)) (lone : value.isLone = true) :
    value = base ∧ left = rest := by
  have stopped (read : (base, rest) = (value, left)) : value = base ∧ left = rest :=
    ⟨(Prod.mk.inj read).1.symm, (Prod.mk.inj read).2.symm⟩
  -- A link is neither, and nor is what further links make of it.
  have linked (link : Parse Node) (made : link.1.isLone = false)
      (shorter : link.2.length < rest.length) (read : full.chain link.1 link.2 = (value, left)) :
      value = base ∧ left = rest := by
    obtain ⟨rfl, -⟩ := chain_lone read lone
    exact absurd (lone.symm.trans made) Bool.noConfusion
  rw [full_chain] at read
  rcases rest with _ | ⟨next, after⟩
  · exact stopped read
  · simp only [readChain] at read
    split at read
    · split at read
      · exact linked _ (readGroup_not_lone fun _ => indexed_not_lone next _)
          (Nat.lt_succ_of_le (readGroup_suffix ..).length_le) read
      · exact stopped read
    · split at read
      · exact linked _ (readGroup_not_lone fun _ => indexed_not_lone next _)
          (Nat.lt_succ_of_le (readGroup_suffix ..).length_le) read
      · exact stopped read
    · exact linked _ (readArrow_not_lone next after)
        (Nat.lt_succ_of_le (Consumes.readArrow base next after).length_le) read
    · split at read
      · exact linked (.trailing next.text base, after) rfl (Nat.lt_succ_self _) read
      · exact stopped read
    · exact stopped read
termination_by rest.length

/-- An operation that is a string, a list or a return is its first operand. -/
theorem operation_lone {level : Nat} (read : full.operation level lexeme rest = (value, left))
    (lone : value.isLone = true) : full.readOperand lexeme rest = (value, left) := by
  rw [full_operation] at read
  have climbs : full.climb level (full.readOperand lexeme rest).1
      (full.readOperand lexeme rest).2 = (value, left) := by
    rw [full_climb]
    exact read
  obtain ⟨rfl, rfl⟩ := climb_kept binary_not_lone (fun _ _ _ => rfl) climbs lone
  rfl

theorem readKeyword_lone (keyword : Lexeme) (rest : List Lexeme)
    (lone : (g.readKeyword keyword rest).1.isLone = true) :
    ∃ returned, (g.readKeyword keyword rest).1 = .returned returned := by
  have jumps (jump : Jump) : (readJump jump rest).1.isLone = false := by
    rcases rest with _ | ⟨label, rest⟩
    · rfl
    · simp only [readJump]
      split <;> rfl
  have other {node : Node} (made : node.isLone = false) (lone : node.isLone = true) :
      ∃ returned, node = .returned returned :=
    absurd (lone.symm.trans made) Bool.noConfusion
  revert lone
  simp only [readKeyword]
  split
  · split <;> exact other rfl
  · split <;> exact other rfl
  · split
    · exact other rfl
    · split <;> exact other rfl
  · split
    · exact other rfl
    · simp only [readRequire]
      split <;> exact other rfl
  · exact other rfl
  · exact other rfl
  · exact other rfl
  · exact fun _ => ⟨_, rfl⟩
  · exact other (jumps .last)
  · exact other (jumps .next)
  · exact other (jumps .redo)
  · exact other rfl

/-- A word that is no name begins an operand of its own, and no string. -/
theorem readOperand_word (word : lexeme.isWord = true) {previous : Option Category}
    (classified : lexeme = lexeme.token.classify previous) (noName : ¬ lexeme.IsName)
    (lone : (full.readOperand lexeme rest).1.isLone = true) :
    ∃ returned, (full.readOperand lexeme rest).1 = .returned returned := by
  have kind : lexeme.token.kind = .identifier := of_decide_eq_true word
  have role : lexeme.category = .ofWord lexeme.text := by
    rw [Lexeme.category_of_classified classified]
    refine (Token.categoryAfter_word kind previous).resolve_left fun name => noName (.inl ?_)
    rw [Lexeme.category_of_classified classified, name]
  have other {node : Node} (made : node.isLone = false) (lone : node.isLone = true) :
      ∃ returned, node = .returned returned :=
    absurd (lone.symm.trans made) Bool.noConfusion
  by_cases unary : lexeme.category = .unaryOperator
  · revert lone
    simp only [readOperand, unary]
    split <;> exact other rfl
  · have noSign (operator : lexeme.category = .binaryOperator) :=
      Category.ofWord_noSign (role.symm.trans operator)
    rw [readOperand_atom unary noSign] at lone ⊢
    rcases chained : full.chain (full.primary lexeme rest).1 (full.primary lexeme rest).2 with
      ⟨value, left⟩
    rw [chained] at lone
    obtain ⟨rfl, -⟩ := chain_lone chained lone
    have noOpener := (Category.ofWord_plain lexeme.text).1
    rw [← role] at noOpener
    revert lone
    rw [full_primary]
    simp only [readPrimary, kind]
    split
    · exact other rfl
    · next opens => simp [opens, Category.isOpener] at noOpener
    · next opens => simp [opens, Category.isOpener] at noOpener
    · next opens => simp [opens, Category.isOpener] at noOpener
    · rcases rest with _ | ⟨next, rest⟩
      · exact other rfl
      · simp only [readDeclaration]
        split <;> exact other rfl
    · exact readKeyword_lone lexeme rest
    · next name => exact absurd (.inl name) noName
    · next name => exact absurd (.inr name) noName
    · exact other rfl

/-- Nor does an operation that it begins. -/
theorem operation_word (word : lexeme.isWord = true) {previous : Option Category}
    (classified : lexeme = lexeme.token.classify previous) (noName : ¬ lexeme.IsName) {level : Nat}
    (lone : (full.operation level lexeme rest).1.isLone = true) :
    ∃ returned, (full.operation level lexeme rest).1 = .returned returned := by
  rcases read : full.operation level lexeme rest with ⟨value, left⟩
  rw [read] at lone
  have operand := operation_lone read lone
  obtain ⟨returned, same⟩ := readOperand_word word classified noName (by rwa [operand])
  exact ⟨returned, (congrArg Prod.fst operand).symm.trans same⟩

/-- Before a fat comma an operation is the string of its word if and only if the word is a name. -/
theorem operation_key_iff {comma : Lexeme} (keyed : lexeme.Keyed comma) (level : Nat) :
    (full.operation level lexeme (comma :: rest)).1 = .plain lexeme.text ↔ lexeme.IsName := by
  obtain ⟨previous, classified⟩ := keyed.classified
  constructor
  · intro quoted
    by_contra noName
    have lone : (full.operation level lexeme (comma :: rest)).1.isLone = true := by
      rw [quoted]
      rfl
    obtain ⟨returned, same⟩ := operation_word keyed.isWord classified noName lone
    exact Node.noConfusion (quoted.symm.trans same)
  · intro names
    rw [operation_key keyed.isWord names keyed.role keyed.fat]

end Grammar

/-! ## The elements of a list -/

open Grammar

/-- How the elements of a list are read. -/
inductive ListKind where
  /-- Between brackets: what stands between commas, each piece alone. -/
  | bracketed (anchor : Position)
  /-- Behind a list operator: one argument after the other, as long as a lexeme can begin one. -/
  | arguments
  /-- On their own: one item after the other, for as long as a comma follows. -/
  | items
deriving DecidableEq, Repr, Inhabited

namespace ListKind

/-- Whether the list stands between brackets. -/
def isBracketed : ListKind → Bool
  | bracketed _ => true
  | _ => false

/-- The trees of the elements of a list. -/
def trees : ListKind → List Lexeme → List Node
  | .bracketed anchor, lexemes => full.readElements anchor lexemes
  | .arguments, lexemes => (full.readArguments lexemes).1
  | .items, [] => []
  | .items, lexeme :: rest =>
    (full.operation Level.lowest lexeme rest).1 ::
      (full.items (full.operation Level.lowest lexeme rest).2).1

/-- Element number `index` of a list is read where a place of the list begins. -/
inductive Element : ListKind → List Lexeme → Nat → List Lexeme → Prop where
  | first (kind : ListKind) (lexemes : List Lexeme) : Element kind lexemes 0 lexemes
  /-- An empty piece is no element. -/
  | skip {anchor : Position} {comma : Lexeme} {rest place : List Lexeme} {index : Nat}
    (role : comma.category = .comma) (further : Element (.bracketed anchor) rest index place) :
    Element (.bracketed anchor) (comma :: rest) index place
  | piece {anchor : Position} {lexemes place : List Lexeme} {cut : Cut} {index : Nat}
    (found : cutAtTopLevel? (fun lexeme => lexeme.category = .comma) 0 lexemes = some cut)
    (nonempty : cut.before ≠ [])
    (further : Element (.bracketed anchor) cut.after index place) :
    Element (.bracketed anchor) lexemes (index + 1) place
  | argument {lexeme : Lexeme} {rest place : List Lexeme} {index : Nat}
    (starts : lexeme.startsOperand = true)
    (comma : nextIs .comma (full.operation Level.assignment lexeme rest).2 = true)
    (further : Element .arguments
      ((full.operation Level.assignment lexeme rest).2.dropWhile fun next => next.category = .comma)
      index place) :
    Element .arguments (lexeme :: rest) (index + 1) place
  | item {lexeme : Lexeme} {rest place : List Lexeme} {index : Nat}
    (comma : nextIs .comma (full.operation Level.lowest lexeme rest).2 = true)
    (further : Element .items
      ((full.operation Level.lowest lexeme rest).2.dropWhile fun next => next.category = .comma)
      index place) :
    Element .items (lexeme :: rest) (index + 1) place

variable {anchor : Position} {lexeme : Lexeme} {rest lexemes : List Lexeme}

/-! ### One element, and the others -/

theorem trees_bracketed (anchor : Position) (lexemes : List Lexeme) :
    (bracketed anchor).trees lexemes = elements anchor (segmentsFrom .comma 0 lexemes) := by
  rw [trees, readElements_eq]
  cases lexemes <;> rfl

theorem trees_skip {comma : Lexeme} (role : comma.category = .comma) :
    (bracketed anchor).trees (comma :: rest) = (bracketed anchor).trees rest := by
  rw [trees_bracketed, trees_bracketed, segmentsFrom_eq rfl rfl]
  simp only [cutAtTopLevel?, role, decide_true, and_self, ↓reduceIte]
  rfl

theorem trees_piece {cut : Cut}
    (found : cutAtTopLevel? (fun lexeme => lexeme.category = .comma) 0 lexemes = some cut)
    (nonempty : cut.before ≠ []) :
    (bracketed anchor).trees lexemes =
      Segment.element anchor ⟨cut.before, some cut.found⟩ ::
        (bracketed anchor).trees cut.after := by
  rw [trees_bracketed, trees_bracketed, segmentsFrom_eq rfl rfl, found]
  exact elements_cons_of_ne_nil anchor _ nonempty

theorem trees_argument (starts : lexeme.startsOperand = true) :
    arguments.trees (lexeme :: rest) =
      (full.operation Level.assignment lexeme rest).1 ::
        if nextIs .comma (full.operation Level.assignment lexeme rest).2 then
          arguments.trees ((full.operation Level.assignment lexeme rest).2.dropWhile
            fun next => next.category = .comma)
        else [] := by
  rw [trees, trees, readArguments_starts starts, ← full_arguments, furtherArguments]
  split <;> rfl

/-- Where no argument begins there are none. -/
theorem trees_none (ends : lexeme.startsOperand = false) :
    arguments.trees (lexeme :: rest) = [] := by
  simp only [trees, Grammar.readArguments, ends, Bool.false_eq_true, ↓reduceIte]

/-- Behind an item the further items are those behind its commas. -/
theorem items_further {after : List Lexeme} (comma : nextIs .comma after = true) :
    (full.items after).1 =
      items.trees (after.dropWhile fun next => next.category = .comma) := by
  induction after with
  | nil => contradiction
  | cons first after ih =>
    have role : first.category = .comma := by simpa [nextIs] using comma
    rw [List.dropWhile_cons_of_pos (by simpa using role), full_items]
    rcases after with _ | ⟨next, after⟩
    · simp only [readItems, role, ↓reduceIte]
      rfl
    · by_cases again : next.category = .comma
      · rw [readItems_comma role again]
        exact ih (by simpa [nextIs] using again)
      · rw [readItems_item role again, List.dropWhile_cons_of_neg (by simpa using again)]
        rfl

/-- Without a comma there are none. -/
theorem items_none {after : List Lexeme} (ends : nextIs .comma after = false) :
    (full.items after).1 = [] := by
  rw [full_items]
  rcases after with _ | ⟨first, after⟩
  · rfl
  · have other : ¬ first.category = .comma := by simpa [nextIs] using ends
    simp only [readItems, other, ↓reduceIte]

theorem trees_item (comma : nextIs .comma (full.operation Level.lowest lexeme rest).2 = true) :
    items.trees (lexeme :: rest) =
      (full.operation Level.lowest lexeme rest).1 ::
        items.trees ((full.operation Level.lowest lexeme rest).2.dropWhile
          fun next => next.category = .comma) := by
  rw [trees, items_further comma]

/-- What is read behind the commas after an element is less than the list. -/
theorem further_length (level : Nat) (lexeme : Lexeme) (rest : List Lexeme) :
    ((full.operation level lexeme rest).2.dropWhile fun next => next.category = .comma).length <
      (lexeme :: rest).length := by
  have dropped := (List.dropWhile_suffix (fun next : Lexeme => decide (next.category = .comma))
    (l := (full.operation level lexeme rest).2)).length_le
  have left := (consumes_full.operation level lexeme rest).length_le
  rw [List.length_cons]
  omega

/-- Between brackets every element is read at a place that begins with no comma. -/
theorem exists_piece (anchor : Position) (lexemes : List Lexeme) {index : Nat}
    (listed : index < ((bracketed anchor).trees lexemes).length) :
    ∃ lexeme place, (bracketed anchor).Element lexemes index (lexeme :: place) ∧
      lexeme.category ≠ .comma := by
  match lexemes with
  | [] => exact absurd listed (Nat.not_lt_zero _)
  | lexeme :: rest =>
    by_cases role : lexeme.category = .comma
    · rw [trees_skip role] at listed
      obtain ⟨first, place, element, solid⟩ := exists_piece anchor rest listed
      exact ⟨first, place, .skip role element, solid⟩
    · cases index with
      | zero => exact ⟨lexeme, rest, .first _ _, role⟩
      | succ index =>
        rcases found : cutAtTopLevel? (fun lexeme => lexeme.category = .comma) 0
          (lexeme :: rest) with _ | cut
        · rw [trees_bracketed, segmentsFrom_eq rfl rfl, found,
            elements_cons_of_ne_nil anchor _ (List.cons_ne_nil lexeme rest)] at listed
          simp [elements] at listed
        · have nonempty : cut.before ≠ [] := by
            simp only [cutAtTopLevel?, role, decide_false, Bool.false_eq_true, and_false,
              ↓reduceIte] at found
            split at found
            · contradiction
            · obtain ⟨inner, -, rfl⟩ := Option.map_eq_some_iff.mp found
              exact List.cons_ne_nil lexeme _
          have shorter : cut.after.length < (lexeme :: rest).length := by
            rw [← cutAtTopLevel?_whole found, Cut.whole, List.length_append, List.length_cons]
            omega
          rw [trees_piece found nonempty, List.length_cons] at listed
          obtain ⟨first, place, element, solid⟩ :=
            exists_piece anchor cut.after (Nat.lt_of_succ_lt_succ listed)
          exact ⟨first, place, .piece found nonempty element, solid⟩
termination_by lexemes.length
decreasing_by
  · exact Nat.lt_succ_self rest.length
  · exact shorter

theorem exists_argument (lexemes : List Lexeme) {index : Nat}
    (listed : index < (arguments.trees lexemes).length) :
    ∃ lexeme place, arguments.Element lexemes index (lexeme :: place) := by
  match lexemes, index with
  | [], _ => exact absurd listed (Nat.not_lt_zero _)
  | lexeme :: rest, 0 => exact ⟨lexeme, rest, .first _ _⟩
  | lexeme :: rest, index + 1 =>
    cases starts : lexeme.startsOperand with
    | false =>
      rw [trees_none starts] at listed
      exact absurd listed (Nat.not_lt_zero _)
    | true =>
      rw [trees_argument starts, List.length_cons] at listed
      have further := Nat.lt_of_succ_lt_succ listed
      split at further
      · next comma =>
        obtain ⟨first, place, element⟩ := exists_argument _ further
        exact ⟨first, place, .argument starts comma element⟩
      · exact absurd further (Nat.not_lt_zero _)
termination_by lexemes.length
decreasing_by exact further_length ..

theorem exists_item (lexemes : List Lexeme) {index : Nat}
    (listed : index < (items.trees lexemes).length) :
    ∃ lexeme place, items.Element lexemes index (lexeme :: place) := by
  match lexemes, index with
  | [], _ => exact absurd listed (Nat.not_lt_zero _)
  | lexeme :: rest, 0 => exact ⟨lexeme, rest, .first _ _⟩
  | lexeme :: rest, index + 1 =>
    cases comma : nextIs .comma (full.operation Level.lowest lexeme rest).2 with
    | false =>
      rw [trees, items_none comma] at listed
      exact absurd (Nat.lt_of_succ_lt_succ listed) (Nat.not_lt_zero _)
    | true =>
      rw [trees_item comma, List.length_cons] at listed
      obtain ⟨first, place, element⟩ := exists_item _ (Nat.lt_of_succ_lt_succ listed)
      exact ⟨first, place, .item comma element⟩
termination_by lexemes.length
decreasing_by exact further_length ..

/-- Every element of a list is read at a place of the list, and between brackets no place begins
with a comma. -/
theorem exists_element {kind : ListKind} {lexemes : List Lexeme} {index : Nat}
    (listed : index < (kind.trees lexemes).length) :
    ∃ lexeme place, kind.Element lexemes index (lexeme :: place) ∧
      (kind.isBracketed = true → lexeme.category ≠ .comma) := by
  cases kind with
  | bracketed anchor =>
    obtain ⟨lexeme, place, element, solid⟩ := exists_piece anchor lexemes listed
    exact ⟨lexeme, place, element, fun _ => solid⟩
  | arguments =>
    obtain ⟨lexeme, place, element⟩ := exists_argument lexemes listed
    exact ⟨lexeme, place, element, nofun⟩
  | items =>
    obtain ⟨lexeme, place, element⟩ := exists_item lexemes listed
    exact ⟨lexeme, place, element, nofun⟩

/-! ### Words -/

variable {kind : ListKind} {word comma : Lexeme}

/-- Between brackets a word before a fat comma is a piece of its own. -/
theorem cut_word (keyed : word.Keyed comma) :
    cutAtTopLevel? (fun lexeme => lexeme.category = .comma) 0 (word :: comma :: rest) =
      some ⟨[word], comma, rest⟩ := by
  obtain ⟨opens, closes, noComma, -⟩ := keyed.plain
  simp [cutAtTopLevel?, noComma, Category.depthAfter?_plain opens closes, keyed.role, Cut.push]

/-- Between brackets a word before a fat comma is a string, whatever its role. -/
theorem trees_key (anchor : Position) (keyed : word.Keyed comma) (rest : List Lexeme) :
    (bracketed anchor).trees (word :: comma :: rest) =
      .plain word.text :: (bracketed anchor).trees rest := by
  rw [trees_piece (cut_word keyed) (List.cons_ne_nil word [])]
  simp only [Segment.element, Option.filter_some, keyed.fat, ↓reduceIte, Option.bind_some,
    barewordKey?, keyed.isWord]

/-- The first element of a list that begins with a word before a fat comma. -/
theorem first_key_iff (keyed : word.Keyed comma) :
    (kind.trees (word :: comma :: rest))[0]? = some (.plain word.text) ↔
      kind.isBracketed = true ∨ word.IsName := by
  cases kind with
  | bracketed anchor =>
    rw [trees_key anchor keyed]
    simp only [List.getElem?_cons_zero, isBracketed, true_or]
  | arguments =>
    cases starts : word.startsOperand with
    | true =>
      rw [trees_argument starts, List.getElem?_cons_zero, Option.some_inj, operation_key_iff keyed]
      simp only [isBracketed, Bool.false_eq_true, false_or]
    | false =>
      have noName : ¬ word.IsName := by
        rintro (names | names) <;> simp [Lexeme.startsOperand, names] at starts
      rw [trees_none starts]
      simp [isBracketed, noName]
  | items =>
    rw [trees, List.getElem?_cons_zero, Option.some_inj, operation_key_iff keyed]
    simp only [isBracketed, Bool.false_eq_true, false_or]

/-- Wherever an element of a list is read that is a word before a fat comma, it is the string of the
word if and only if the list stands between brackets or the word is a name. -/
theorem Element.key_iff {index : Nat}
    (element : kind.Element lexemes index (word :: comma :: rest)) (keyed : word.Keyed comma) :
    (kind.trees lexemes)[index]? = some (.plain word.text) ↔
      kind.isBracketed = true ∨ word.IsName := by
  generalize same : word :: comma :: rest = place at element
  induction element with
  | first kind lexemes =>
    subst same
    exact first_key_iff keyed
  | skip empty further ih => rw [trees_skip empty, ih same]
  | piece found nonempty further ih =>
    rw [trees_piece found nonempty, List.getElem?_cons_succ, ih same]
  | argument starts follows further ih =>
    rw [trees_argument starts, if_pos follows, List.getElem?_cons_succ, ih same]
  | item follows further ih =>
    rw [trees_item follows, List.getElem?_cons_succ, ih same]

end ListKind

/-! ## The lists of the language -/

/-- The keywords of the outputs. -/
def outputKeywords : List (String × Output) := [("print", .print), ("say", .say)]

/-- The keywords of the alarms. -/
def alarmKeywords : List (String × Alarm) := [("die", .die), ("warn", .warn)]

/-- A tree that is read of a list, with how the elements of the list are read, from which lexemes,
and what tree they make. -/
inductive ReadsList : Node → ListKind → List Lexeme → (List Node → Node) → Prop where
  | parenthesized {opener : Lexeme} {rest inner left : List Lexeme}
    (kind : opener.token.kind = .openParen) (opens : opener.category = .leftParen)
    (taken : takeGroup opener rest = (.ok inner, left)) (commas : hasTopLevel inner .comma = true) :
    ReadsList (full.readPrimary opener rest).1 (.bracketed opener.position) inner .list
  | array {opener : Lexeme} {rest inner left : List Lexeme}
    (kind : opener.token.kind = .openBracket) (opens : opener.category = .leftBracket)
    (taken : takeGroup opener rest = (.ok inner, left)) :
    ReadsList (full.readPrimary opener rest).1 (.bracketed opener.position) inner
      (.collection .array)
  | hash {opener : Lexeme} {rest inner left : List Lexeme}
    (kind : opener.token.kind = .openBrace) (opens : opener.category = .leftBrace)
    (taken : takeGroup opener rest = (.ok inner, left)) :
    ReadsList (full.readPrimary opener rest).1 (.bracketed opener.position) inner
      (.collection .hash)
  | subscript {anchor : Position} {inner : List Lexeme} (commas : hasTopLevel inner .comma = true) :
    ReadsList (full.readSubscript anchor inner) (.bracketed anchor) inner .list
  | targets {declarator opener : Lexeme} {rest inner left : List Lexeme}
    (opens : opener.category = .leftParen) (taken : takeGroup opener rest = (.ok inner, left)) :
    ReadsList (full.readDeclaration declarator (opener :: rest)).1 (.bracketed opener.position)
      inner (.declare declarator.text)
  | call {name opener : Lexeme} {rest inner left : List Lexeme} (word : name.isWord = true)
    (names : name.IsName) (kind : opener.token.kind = .openParen)
    (opens : opener.category = .leftParen) (taken : takeGroup opener rest = (.ok inner, left)) :
    ReadsList (full.readPrimary name (opener :: rest)).1 (.bracketed opener.position) inner
      (.call name.text)
  | keywordCall {keyword opener : Lexeme} {rest inner left : List Lexeme}
    (word : keyword.isWord = true) (role : keyword.category = .keyword)
    (spelled : keyword.text ∈ ["print", "say", "do", "require"])
    (opens : opener.category = .leftParen) (taken : takeGroup opener rest = (.ok inner, left)) :
    ReadsList (full.readPrimary keyword (opener :: rest)).1 (.bracketed opener.position) inner
      (.call keyword.text)
  | alarmCall {keyword opener : Lexeme} {alarm : Alarm} {rest inner left : List Lexeme}
    (word : keyword.isWord = true) (role : keyword.category = .keyword)
    (spelled : (keyword.text, alarm) ∈ alarmKeywords) (opens : opener.category = .leftParen)
    (taken : takeGroup opener rest = (.ok inner, left)) :
    ReadsList (full.readPrimary keyword (opener :: rest)).1 (.bracketed opener.position) inner
      (.alarm alarm)
  | codeCall {base : Node} {arrow opener : Lexeme} {rest inner left : List Lexeme}
    (opens : opener.category = .leftParen) (taken : takeGroup opener rest = (.ok inner, left)) :
    ReadsList (full.readArrow base arrow (opener :: rest)).1 (.bracketed opener.position) inner
      (.codeCall base)
  | methodCall {base : Node} {arrow name opener : Lexeme} {rest inner left : List Lexeme}
    (names : name.NamesMethod) (opens : opener.category = .leftParen)
    (taken : takeGroup opener rest = (.ok inner, left)) :
    ReadsList (full.readArrow base arrow (name :: opener :: rest)).1 (.bracketed opener.position)
      inner (.methodCall base name.text)
  /-- A list operator, behind the block that it may take first. -/
  | builtin {name : Lexeme} {rest inner : List Lexeme} {block : List Node}
    (word : name.isWord = true) (role : name.category = .builtin)
    (manyOperands : isNullary name.text = false ∧ isNamedUnary name.text = false)
    (alone : rest.head?.any Lexeme.isFatComma = false ∧ nextIs .leftParen rest = false)
    (first : full.readLeadingBlock name rest = (block, inner)) :
    ReadsList (full.readPrimary name rest).1 .arguments inner
      fun arguments => .call name.text (block ++ arguments)
  /-- A name that is called as a list operator. -/
  | operator {name : Lexeme} {rest : List Lexeme} (word : name.isWord = true)
    (role : name.category = .identifier) (noFat : rest.head?.any Lexeme.isFatComma = false)
    (operand : (nextIs .literal rest || nextIs .var rest || nextIs .postfixDerefSigil rest) =
      true) :
    ReadsList (full.readPrimary name rest).1 .arguments rest (.call name.text)
  | output {keyword : Lexeme} {output : Output} {rest inner : List Lexeme}
    {filehandle : Option Node} (word : keyword.isWord = true) (role : keyword.category = .keyword)
    (spelled : (keyword.text, output) ∈ outputKeywords)
    (noGroup : nextIs .leftParen rest = false)
    (first : full.readFilehandle rest = (filehandle, inner)) :
    ReadsList (full.readPrimary keyword rest).1 .arguments inner (.output output filehandle)
  | alarm {keyword : Lexeme} {alarm : Alarm} {rest : List Lexeme} (word : keyword.isWord = true)
    (role : keyword.category = .keyword) (spelled : (keyword.text, alarm) ∈ alarmKeywords)
    (noGroup : nextIs .leftParen rest = false) :
    ReadsList (full.readPrimary keyword rest).1 .arguments rest (.alarm alarm)
  | returned {keyword : Lexeme} {rest : List Lexeme} (word : keyword.isWord = true)
    (role : keyword.category = .keyword) (spelled : keyword.text = "return") :
    ReadsList (full.readPrimary keyword rest).1 .arguments rest
      fun values => .returned (valueOf values)
  /-- A comma list on its own, if all of it is read. -/
  | bare {anchor : Position} {lexeme : Lexeme} {rest : List Lexeme}
    (comma : nextIs .comma (full.operation Level.lowest lexeme rest).2 = true)
    (all : (full.items (full.operation Level.lowest lexeme rest).2).2 = []) :
    ReadsList (full.readWhole anchor (lexeme :: rest)) .items (lexeme :: rest) .list
  | imports {negated : Bool} {keyword name lexeme : Lexeme} {rest more : List Lexeme}
    {version : Option String} (word : name.isWord = true)
    (head : (if nextIs .comma rest.tail then (none, rest) else readVersion rest) =
      (version, lexeme :: more))
    (comma : nextIs .comma (full.operation Level.lowest lexeme more).2 = true)
    (all : (full.items (full.operation Level.lowest lexeme more).2).2 = []) :
    ReadsList (full.readUse negated keyword (name :: rest)).1 .items (lexeme :: more)
      (.useDecl negated (some name.text) version)

theorem readWhole_bare {anchor : Position} {lexeme : Lexeme} {rest : List Lexeme}
    (comma : nextIs .comma (full.operation Level.lowest lexeme rest).2 = true)
    (all : (full.items (full.operation Level.lowest lexeme rest).2).2 = []) :
    full.readWhole anchor (lexeme :: rest) = .list (ListKind.items.trees (lexeme :: rest)) := by
  rw [← parseExpression_eq, parseExpression_cases, if_pos comma, Node.finish, all]
  rfl

section Groups

variable {opener : Lexeme} {rest inner left : List Lexeme}

theorem ne_nil_of_commas (commas : hasTopLevel inner .comma = true) : inner ≠ [] := by
  rintro rfl
  contradiction

theorem readGroupElements_taken (taken : takeGroup opener rest = (.ok inner, left)) :
    full.readGroupElements opener rest =
      ((ListKind.bracketed opener.position).trees inner, left) := by
  rw [readGroupElements, readGroup_of_taken taken]
  rfl

theorem readCallArguments_taken (opens : opener.category = .leftParen)
    (taken : takeGroup opener rest = (.ok inner, left)) :
    full.readCallArguments (opener :: rest) =
      ((ListKind.bracketed opener.position).trees inner, left) := by
  rw [readCallArguments, if_pos opens, readGroupElements_taken taken]

/-- Without parentheses the arguments of a call are those of a list operator. -/
theorem readCallArguments_bare (noGroup : nextIs .leftParen rest = false) :
    full.readCallArguments rest = full.readArguments rest := by
  rcases rest with _ | ⟨next, rest⟩
  · rfl
  · have noParen : ¬ next.category = .leftParen := by simpa [nextIs] using noGroup
    simp only [readCallArguments, noParen, ↓reduceIte]

end Groups

/-- Such a tree is what the trees of the elements make. -/
theorem ReadsList.eq {node : Node} {kind : ListKind} {lexemes : List Lexeme}
    {tree : List Node → Node} (lists : ReadsList node kind lexemes tree) :
    node = tree (kind.trees lexemes) := by
  have isWord {lexeme : Lexeme} (word : lexeme.isWord = true) :
      lexeme.token.kind = .identifier := of_decide_eq_true word
  cases lists with
  | parenthesized kind opens taken commas =>
    simp [readPrimary, kind, opens, readParenthesized, readGroup_of_taken taken, commas,
      ne_nil_of_commas commas, ListKind.trees]
  | array kind opens taken =>
    simp only [readPrimary, kind, opens, readGroup_of_taken taken, ListKind.trees]
  | hash kind opens taken =>
    simp only [readPrimary, kind, opens, readGroup_of_taken taken, ListKind.trees]
  | subscript commas => simp [readSubscript, commas, ne_nil_of_commas commas, ListKind.trees]
  | targets opens taken =>
    simp only [readDeclaration, opens, ↓reduceIte, readGroupElements_taken taken]
  | call word names kind opens taken =>
    rcases names with role | role <;>
      simp [readPrimary, isWord word, role, readWord, Lexeme.isFatComma, kind, nextIs, opens,
        readCall, readCallArguments_taken opens taken]
  | keywordCall word role spelled opens taken =>
    simp only [List.mem_cons, List.not_mem_nil, or_false] at spelled
    rcases spelled with spelled | spelled | spelled | spelled <;>
      simp [readPrimary, isWord word, role, readKeyword, spelled, nextIs, opens, readCall,
        readCallArguments_taken opens taken]
  | alarmCall word role spelled opens taken =>
    simp only [alarmKeywords, List.mem_cons, Prod.mk.injEq, List.not_mem_nil, or_false] at spelled
    rcases spelled with ⟨spelled, rfl⟩ | ⟨spelled, rfl⟩ <;>
      simp [readPrimary, isWord word, role, readKeyword, spelled, readAlarm,
        readCallArguments_taken opens taken]
  | codeCall opens taken => simp only [readArrow, opens, readGroup_of_taken taken, ListKind.trees]
  | methodCall names opens taken =>
    simp only [readArrow_of_names names, readMethod, readMethodArguments, opens, ↓reduceIte,
      readGroupElements_taken taken]
  | builtin word role manyOperands alone first =>
    simp [readPrimary, isWord word, role, readWord, alone, readBuiltin, manyOperands, first,
      ListKind.trees]
  | operator word role noFat operand =>
    have noGroup : nextIs .leftParen lexemes = false := by
      rcases lexemes with _ | ⟨next, rest⟩
      · rfl
      · refine Bool.eq_false_iff.mpr fun opens => ?_
        have group : next.category = .leftParen := by simpa [nextIs] using opens
        simp [nextIs, group] at operand
    simp only [readPrimary, isWord word, role, readWord, noFat, Bool.false_eq_true, ↓reduceIte,
      noGroup, reduceCtorEq, operand, ListKind.trees]
  | output word role spelled noGroup first =>
    simp only [outputKeywords, List.mem_cons, Prod.mk.injEq, List.not_mem_nil, or_false] at spelled
    rcases spelled with ⟨spelled, rfl⟩ | ⟨spelled, rfl⟩ <;>
      simp [readPrimary, isWord word, role, readKeyword, spelled, readOutput, noGroup, first,
        ListKind.trees]
  | alarm word role spelled noGroup =>
    simp only [alarmKeywords, List.mem_cons, Prod.mk.injEq, List.not_mem_nil, or_false] at spelled
    rcases spelled with ⟨spelled, rfl⟩ | ⟨spelled, rfl⟩ <;>
      simp [readPrimary, isWord word, role, readKeyword, spelled, readAlarm,
        readCallArguments_bare noGroup, ListKind.trees]
  | returned word role spelled =>
    simp [readPrimary, isWord word, role, readKeyword, spelled, ListKind.trees]
  | bare comma all => exact readWhole_bare comma all
  | @imports negated keyword name lexeme rest more version word head comma all =>
    have noVersion : readVersion (name :: rest) = (none, name :: rest) := by
      simp [readVersion, isWord word]
    have named : readName .moduleName keyword.position (name :: rest) = .ok (name.text, rest) := by
      simp [readName, word]
    simp only [readUse, noVersion, named, head, readWhole_bare comma all]
    rfl

end SigilScript
