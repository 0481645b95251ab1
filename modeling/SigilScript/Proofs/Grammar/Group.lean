import SigilScript.Proofs.Blocks
import SigilScript.Proofs.Extent

/-! # Groups, conditions and blocks

A group is a pair of brackets around a properly nested list. What stands behind a keyword is made
of groups: a condition in parentheses and a block in braces. Each is read in front of anything as
what is parsed of its inside, each is passed over by a search at depth zero, and the boundary of a
statement takes each of them whole.
-/

namespace SigilScript

/-- Brackets of these two roles around a properly nested list. -/
structure Group (opener closer : Category) where
  first : Lexeme
  inside : List Lexeme
  last : Lexeme
  opens : first.category = opener
  closes : last.category = closer
  /-- A bracket spells no variable. -/
  bracket : first.asVar? = none
  nested : Nested inside

/-- A condition in parentheses; something stands in them. -/
structure Condition extends Group .leftParen .rightParen where
  nonempty : inside ≠ []

/-- A block in braces. -/
abbrev Block := Group .leftBrace .rightBrace

/-- A keyword with its condition and its block. -/
structure Guarded (category : Category) (spelling : String) where
  keyword : Lexeme
  spelled : keyword.isSpelled category spelling = true
  condition : Condition
  block : Block

/-- A keyword with its block. -/
structure Unguarded (category : Category) (spelling : String) where
  keyword : Lexeme
  spelled : keyword.isSpelled category spelling = true
  block : Block

theorem Lexeme.isSpelled_iff {lexeme : Lexeme} {category : Category} {spelling : String} :
    lexeme.isSpelled category spelling = true ↔
      lexeme.category = category ∧ lexeme.text = spelling := by
  simp [Lexeme.isSpelled]

namespace Group

variable {opener closer : Category}

/-- The lexemes of a group, its brackets among them. -/
def lexemes (group : Group opener closer) : List Lexeme :=
  group.first :: (group.inside ++ [group.last])

@[simp] theorem lexemes_append (group : Group opener closer) (rest : List Lexeme) :
    group.lexemes ++ rest = group.first :: (group.inside ++ group.last :: rest) := by
  simp [lexemes]

theorem partner (group : Group opener closer) (partners : opener.closer? = some closer) :
    group.first.category.closer? = some group.last.category := by
  rw [group.opens, group.closes, partners]

theorem takeGroup (group : Group opener closer) (partners : opener.closer? = some closer)
    (rest : List Lexeme) :
    takeGroup group.first (group.inside ++ group.last :: rest) = (.ok group.inside, rest) :=
  takeGroup_nested (group.partner partners) group.nested rest

/-- No modifier is found in a group. -/
theorem cutAtModifier (group : Group opener closer) (partners : opener.closer? = some closer)
    (rest : List Lexeme) :
    cutAtTopLevel? Lexeme.isModifier 0 (group.lexemes ++ rest) =
      (cutAtTopLevel? Lexeme.isModifier 0 rest).map (Cut.pushAll group.lexemes) := by
  have unwanted : group.first.isModifier = false := by
    have opens := Category.isOpener_of_closer? partners
    cases opener <;> first | contradiction | simp [Lexeme.isModifier, group.opens]
  rw [lexemes_append, cutAtTopLevel?_group Lexeme.isModifier (group.partner partners) unwanted
    group.nested, lexemes]

theorem getLast?_append (front : List Lexeme) (group : Group opener closer) :
    (front ++ group.lexemes).getLast? = some group.last := by
  rw [lexemes, append_group, List.getLast?_concat]

end Group

namespace Guarded

variable {category : Category} {spelling : String}

/-- The lexemes of a keyword with its condition and its block. -/
def lexemes (guarded : Guarded category spelling) : List Lexeme :=
  guarded.keyword :: (guarded.condition.lexemes ++ guarded.block.lexemes)

/-- What its condition is parsed as. -/
def expression (guarded : Guarded category spelling) : Node :=
  parseExpression guarded.condition.first.position guarded.condition.inside

/-- What its block is parsed as. -/
def body (guarded : Guarded category spelling) : List Node :=
  parseItems (guarded.block.inside.map .ok)

@[simp] theorem lexemes_append (guarded : Guarded category spelling) (rest : List Lexeme) :
    guarded.lexemes ++ rest =
      guarded.keyword :: (guarded.condition.lexemes ++ (guarded.block.lexemes ++ rest)) := by
  rw [lexemes, List.cons_append, List.append_assoc]

theorem role (guarded : Guarded category spelling) : guarded.keyword.category = category :=
  (Lexeme.isSpelled_iff.mp guarded.spelled).1

theorem text (guarded : Guarded category spelling) : guarded.keyword.text = spelling :=
  (Lexeme.isSpelled_iff.mp guarded.spelled).2

end Guarded

namespace Unguarded

variable {category : Category} {spelling : String}

/-- The lexemes of a keyword with its block. -/
def lexemes (unguarded : Unguarded category spelling) : List Lexeme :=
  unguarded.keyword :: unguarded.block.lexemes

/-- What its block is parsed as. -/
def body (unguarded : Unguarded category spelling) : List Node :=
  parseItems (unguarded.block.inside.map .ok)

theorem role (unguarded : Unguarded category spelling) : unguarded.keyword.category = category :=
  (Lexeme.isSpelled_iff.mp unguarded.spelled).1

theorem text (unguarded : Unguarded category spelling) : unguarded.keyword.text = spelling :=
  (Lexeme.isSpelled_iff.mp unguarded.spelled).2

end Unguarded

/-- What ends in a block ends in no terminator. -/
theorem Unterminated.of_braces (front : List Lexeme) (block : Block) :
    Unterminated (front ++ block.lexemes) := by
  intro last ends
  rw [Group.getLast?_append] at ends
  rw [← Option.some.inj ends, block.closes]
  exact Category.noConfusion

/-! ## Reading -/

namespace Grammar

/-- A condition is read as the expression in its parentheses. -/
theorem readCondition_condition (keyword : Lexeme) (condition : Condition) (rest : List Lexeme) :
    full.readCondition keyword (condition.lexemes ++ rest) =
      (parseExpression condition.first.position condition.inside, rest) := by
  have nonempty : condition.inside.isEmpty = false :=
    List.isEmpty_eq_false_iff.mpr condition.nonempty
  rw [Group.lexemes_append]
  simp only [readCondition, condition.opens, ↓reduceIte, readGroup, condition.takeGroup rfl,
    nonempty, Bool.false_eq_true, parseExpression_eq]

/-- A block is read as the statements in its braces. -/
theorem readBlock_braces (finish : Position) (block : Block) (rest : List Lexeme) :
    full.readBlock finish (block.lexemes ++ rest) = (parseItems (block.inside.map .ok), rest) := by
  rw [Group.lexemes_append, parseItems_map_ok]
  simp only [readBlock, block.opens, ↓reduceIte, readGroup, block.takeGroup rfl, full_statements,
    parseBlock_eq]

/-- A statement that ends in no terminator and begins with no name is told by its first lexeme,
once no modifier is found in it. -/
theorem readStatement_unmodified {head : Lexeme} {rest : List Lexeme}
    (unterminated : Unterminated (head :: rest)) (unlabelled : head.category ≠ .identifier)
    (unmodified : head.category = .controlKeyword ∨
      cutAtTopLevel? Lexeme.isModifier 0 (head :: rest) = none) :
    full.readStatement (head :: rest) = some (full.readSimple head rest) := by
  have simple : full.readModified head rest = full.readSimple head rest := by
    rcases unmodified with control | none
    · simp only [readModified, control, ↓reduceIte]
    · exact readModified_plain fun first before keyword after found => by simp [none] at found
  rcases rest with _ | ⟨second, rest⟩
  · simp only [readStatement, withoutTerminator_of_unterminated unterminated, simple]
  · simp only [readStatement, withoutTerminator_of_unterminated unterminated, unlabelled,
      false_and, ↓reduceIte, simple]

end Grammar

/-! ## Boundaries -/

namespace Boundary

/-- The boundary of a statement whose block has not begun yet. -/
def bearing (chain : Chain) (chainClosed : Bool) : Boundary :=
  ⟨.blockBearing chain, 0, false, chainClosed⟩

/-- The boundary of a statement whose block has just closed and may be continued. -/
def awaitingChain (chain : Chain) : Boundary := ⟨.blockBearing chain, 0, true, false⟩

variable {chain : Chain} {chainClosed : Bool}

/-- Up to its last bracket a group leads one level inside. -/
theorem takes_group {opener closer : Category} (group : Group opener closer)
    (partners : opener.closer? = some closer) :
    (bearing chain chainClosed).Takes (group.first :: group.inside)
      (bearing chain chainClosed).deeper := by
  have inside : (bearing chain chainClosed).deeper.Inside := ⟨rfl, rfl, Int.one_pos⟩
  have entered : (bearing chain chainClosed).offer group.first =
      (.take, (bearing chain chainClosed).deeper) := by
    have deep : 0 < (bearing chain chainClosed).depth + group.first.category.delta := by
      rw [group.opens, Category.delta_opener (Category.isOpener_of_closer? partners)]
      exact Int.one_pos
    rw [offer_settled rfl rfl, settle_deep deep, group.opens,
      Category.delta_opener (Category.isOpener_of_closer? partners)]
    rfl
  exact .cons entered (inside.takes group.nested)

/-- The last bracket of a group brings the boundary back to depth zero. -/
theorem offer_last (last : Lexeme) :
    (bearing chain chainClosed).deeper.offer last =
      settle ⟨.blockBearing chain, 1, false, chainClosed⟩ last :=
  offer_settled rfl rfl

/-- A group in parentheses is taken whole and leaves the boundary as it was. -/
theorem takes_parens (group : Group .leftParen .rightParen) :
    (bearing chain chainClosed).Takes group.lexemes (bearing chain chainClosed) := by
  have left : (bearing chain chainClosed).deeper.offer group.last =
      (.take, bearing chain chainClosed) := by
    simp only [offer_last, settle, group.closes]
    rfl
  exact (takes_group group rfl).append (.cons left (.nil _))

/-- The block of a statement that nothing can continue completes it. -/
theorem completes_braces (block : Block) (rest : List Lexeme)
    (last : chain = .alone ∨ chainClosed = true) :
    (bearing chain chainClosed).Completes block.lexemes rest := by
  have ended : ((bearing chain chainClosed).deeper.offer block.last).1 = .takeAndEnd := by
    simp only [offer_last, settle, block.closes]
    rcases last with rfl | rfl
    · rfl
    · cases chain <;> rfl
  exact (takes_group block rfl).completes (.last rest (Prod.ext ended rfl))

/-- Behind the block of a statement that may be continued, the boundary waits. -/
theorem takes_braces (block : Block) (continues : chain ≠ .alone) :
    (bearing chain false).Takes block.lexemes (awaitingChain chain) := by
  have awaits : (bearing chain false).deeper.offer block.last = (.take, awaitingChain chain) := by
    simp only [offer_last, settle, block.closes]
    cases chain with
    | alone => contradiction
    | conditional => rfl
    | attempt => rfl
  exact (takes_group block rfl).append (.cons awaits (.nil _))

/-- A keyword that bears a block begins a statement. -/
theorem takes_keyword {keyword : Lexeme} (bears : keyword.head = .blockBearing chain)
    (role : keyword.category = .controlKeyword ∨ keyword.category = .keyword) :
    start.Takes [keyword] (bearing chain false) := by
  have begun : start.offer keyword = (.take, bearing chain false) := by
    rw [offer_resumed rfl, accept]
    simp only [start, bears, settle]
    rcases role with role | role <;> rw [role] <;> rfl
  exact .cons begun (.nil _)

/-- A keyword that continues a chain begins its next clause. -/
theorem takes_continuation {keyword : Lexeme} (continues : chain.continuedBy keyword = true) :
    (awaitingChain chain).Takes [keyword] (bearing chain keyword.closesChain) := by
  have taken : (awaitingChain chain).offer keyword =
      (.take, bearing chain keyword.closesChain) := by
    have role : keyword.category = .controlKeyword ∨ keyword.category = .keyword := by
      cases chain <;> simp_all [Chain.continuedBy]
    rcases role with role | role <;>
      simp [offer, awaitingChain, continues, accept, settle, role, Category.delta, bearing,
        Category.isOpener, Category.isCloser]
  exact .cons taken (.nil _)

/-- What continues no chain stands behind the statement. -/
theorem ends_awaitingChain {next : Lexeme} (alone : chain.continuedBy next = false)
    (rest : List Lexeme) : (awaitingChain chain).Completes [] (next :: rest) := by
  apply Completes.before rest
  simp only [offer, awaitingChain, alone, Bool.false_eq_true, ↓reduceIte]
  rfl

end Boundary

end SigilScript
