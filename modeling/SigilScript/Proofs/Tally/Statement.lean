import SigilScript.Proofs.Layout.Statement
import SigilScript.Proofs.Tally.Expression

/-! # The tally of statements

What each production of a statement reads has an even tally, and so has what a grammar reads that
leaves every attribute unread.
-/

namespace SigilScript

namespace Tally

variable {tree : Node} {lexemes left : List Lexeme}

/-- A declaration may take up its initializer. -/
theorem foldDeclaration (tally : Tally [tree] lexemes left) :
    Tally [Grammar.foldDeclaration tree] lexemes left := by
  simp only [Grammar.foldDeclaration]
  split
  · next declarator targets value =>
    refine tally.congr ?_ ?_
    · simp only [List.flatMap_singleton, Node.faults, Node.faultsOfOption, List.append_nil]
    · calc heldNames [.declaration declarator targets (some value)]
          = heldNames (targets ++ [value]) := heldNames_children _ rfl
        _ = heldNames [.declaration declarator targets none] + heldNames [value] := by
          rw [heldNames_append, heldNames_children (.declaration ..) rfl, Node.children,
            Option.toList_none, List.append_nil]
        _ = heldNames [.assignment "=" (.declaration declarator targets none) value] := by
          rw [← heldNames_cons, heldNames_children (.assignment ..) rfl, Node.children]
  · exact tally

theorem importsOf (tally : Tally [tree] lexemes left) :
    Tally (Grammar.importsOf tree) lexemes left := by
  simp only [Grammar.importsOf]
  split
  · next items =>
    refine tally.congr ?_ ?_
    · rw [List.flatMap_singleton, Node.faults, Node.faultsOfAll_eq_flatMap]
    · exact (heldNames_children (.list items) rfl).symm
  · exact tally

/-- A label changes nothing in what a tree names. -/
theorem labelled (tally : Tally [tree] lexemes left) (label : String) :
    Tally [tree.labelled label] lexemes left := by
  refine tally.congr ?_ ?_
  · cases tree <;> rfl
  · rw [heldNames_singleton, heldNames_singleton tree, Node.children_labelled]
    cases tree <;> rfl

theorem loopDeclarator (rest : List Lexeme) :
    Tally [] rest (Grammar.readLoopDeclarator rest).2 := by
  rcases rest with _ | ⟨next, rest⟩
  · exact .refl []
  · simp only [Grammar.readLoopDeclarator]
    split
    · next role => exact .silent (Lexeme.silent_of_role role (by decide))
    · exact .refl _

theorem loopHolder (rest : List Lexeme) :
    Tally (Grammar.readLoopHolder rest).1.toList rest (Grammar.readLoopHolder rest).2 := by
  rcases rest with _ | ⟨first, rest⟩
  · exact .refl []
  · simp only [Grammar.readLoopHolder, List.head?_cons, Option.bind_some, List.tail_cons]
    split
    · next holder spelled => exact asVar? spelled
    · exact .refl _

/-- The parentheses of a loop, or the fault in their place. -/
theorem loopGroup {keyword : Lexeme} {rest after : List Lexeme}
    {group : Except Node (List Lexeme)}
    (read : Grammar.readLoopGroup keyword rest = (group, after)) :
    (∃ inner, group = .ok inner ∧ ∀ trees, Tally trees inner [] → Tally trees rest after) ∨
      ∃ tree, group = .error tree ∧ Tally [tree] rest after := by
  cases group with
  | ok inner =>
    obtain ⟨opener, behind, rfl, -, taken⟩ := Grammar.readLoopGroup_of_ok read
    obtain ⟨closer, partner, rfl⟩ := takeGroup_ok taken
    exact .inl ⟨inner, rfl, fun trees inside => .group partner inside⟩
  | error tree =>
    refine .inr ⟨tree, rfl, ?_⟩
    rcases Grammar.readLoopGroup_of_error read with
      ⟨rfl, rfl⟩ | ⟨opener, behind, fault, rfl, -, taken, rfl⟩
    · exact .fault (List.Subset.refl _)
    · obtain ⟨-, suffix⟩ := takeGroup_error taken
      exact .fault (List.subset_cons_of_subset _ suffix.subset)

theorem readName_error {rest : List Lexeme} {wanted : Construct} {anchor : Position}
    (read : readName wanted anchor rest = .error tree) : Tally [tree] rest rest := by
  obtain rfl := readName_of_error read
  exact .fault (List.Subset.refl _)

theorem readVersion (rest : List Lexeme) : Tally [] rest (readVersion rest).2 := by
  rcases rest with _ | ⟨version, rest⟩
  · exact .refl []
  · simp only [SigilScript.readVersion]
    split
    · next number => exact .silent (Lexeme.silent_of_kind (by simp [number]))
    · exact .refl _

theorem handlerVariable (opener : Lexeme) (inner : List Lexeme) :
    Tally [Grammar.handlerVariable opener inner] inner [] := by
  rcases inner with _ | ⟨holder, _ | ⟨extra, inner⟩⟩
  · exact .fault (List.nil_subset _)
  · simp only [Grammar.handlerVariable]
    rcases spelled : holder.asVar? with _ | tree
    · exact .fault (List.nil_subset _)
    · exact Tally.asVar? spelled
  · exact .fault (List.nil_subset _)

theorem handlerHolder (rest : List Lexeme) :
    Tally (Grammar.readHandlerHolder rest).1.toList rest (Grammar.readHandlerHolder rest).2 := by
  rcases rest with _ | ⟨opener, rest⟩
  · exact .refl []
  · simp only [Grammar.readHandlerHolder]
    split
    · exact Tally.readGroup Option.toList (handlerVariable opener) fun _ => rfl
    · exact .refl _

end Tally

namespace Grammar

namespace Tallies

variable {g : Grammar} (tallies : g.Tallies)
include tallies

/-! ## Conditionals and loops -/

theorem readCondition (keyword : Lexeme) (rest : List Lexeme) :
    Tally [(g.readCondition keyword rest).1] rest (g.readCondition keyword rest).2 := by
  rcases rest with _ | ⟨opener, inner⟩
  · exact .fault (List.nil_subset _)
  · simp only [Grammar.readCondition]
    split
    · refine Tally.readGroup (fun tree => [tree]) (fun inner => ?_) fun _ => rfl
      split
      · exact .fault (List.nil_subset _)
      · exact tallies.readWhole _ inner
    · exact .fault (atBrace_suffix (opener :: inner)).subset

/-- A condition and its block. -/
theorem conditioned (finish : Position) (keyword : Lexeme) (rest : List Lexeme) :
    Tally ((g.readCondition keyword rest).1 ::
      (g.readBlock finish (g.readCondition keyword rest).2).1) rest
      (g.readBlock finish (g.readCondition keyword rest).2).2 :=
  (tallies.readCondition keyword rest).trans (tallies.readBlock finish _)

theorem readClauses (finish : Position) (rest : List Lexeme) :
    Tally ((g.readClauses finish rest).1.flatMap Node.clauseParts) rest
      (g.readClauses finish rest).2 := by
  rcases rest with _ | ⟨keyword, rest⟩
  · exact .refl []
  · simp only [Grammar.readClauses]
    split
    · next spelled =>
      exact .skip_head (Lexeme.silent_of_spelled spelled (by decide))
        ((tallies.conditioned finish keyword rest).trans (tallies.clauses finish _))
    · exact .refl _

theorem readContinuation (finish : Position) {category : Category} (other : category ≠ .var)
    (keyword : String) (rest : List Lexeme) :
    Tally ((g.readContinuation finish category keyword rest).1.getD []) rest
      (g.readContinuation finish category keyword rest).2 := by
  rcases rest with _ | ⟨next, rest⟩
  · exact .refl []
  · simp only [Grammar.readContinuation]
    split
    · next spelled =>
      exact .skip_head (Lexeme.silent_of_spelled spelled other) (tallies.readBlock finish rest)
    · exact .refl _

theorem readConditional (polarity : Polarity) (keyword : Lexeme) (rest : List Lexeme) :
    Tally [(g.readConditional polarity keyword rest).1] rest
      (g.readConditional polarity keyword rest).2 :=
  .node rfl rfl (((tallies.conditioned _ keyword rest).trans (tallies.readClauses _ _)).trans
    (tallies.readContinuation _ (by decide) "else" _))

theorem readWhile (polarity : Polarity) (keyword : Lexeme) (rest : List Lexeme) :
    Tally [(g.readWhile polarity keyword rest).1] rest (g.readWhile polarity keyword rest).2 :=
  .node rfl rfl (tallies.conditioned _ keyword rest)

theorem readTopic (topic : Topic) (keyword : Lexeme) (rest : List Lexeme) :
    Tally [(g.readTopic topic keyword rest).1] rest (g.readTopic topic keyword rest).2 :=
  .node rfl rfl (tallies.conditioned _ keyword rest)

theorem readLoopClause (keyword : Lexeme) (lexemes : List Lexeme) :
    Tally (g.readLoopClause keyword lexemes).toList lexemes [] := by
  simp only [Grammar.readLoopClause]
  split
  · next empty =>
    rw [List.isEmpty_iff.mp empty]
    exact .refl []
  · have clause := tallies.readWhole keyword.position lexemes
    rw [Option.toList_some]
    split
    · exact clause.foldDeclaration
    · exact clause

/-- The clauses of a counting loop, from the inside of its parentheses. -/
theorem loopClauses (keyword : Lexeme) {lexemes init condition step : List Lexeme}
    (split : splitTopLevel lexemes .terminator = [init, condition, step]) :
    Tally ((g.readLoopClause keyword init).toList ++
      (g.readLoopClause keyword condition).toList ++ (g.readLoopClause keyword step).toList)
      lexemes [] := by
  have clauses : Tally ((segmentsAt .terminator lexemes).flatMap fun segment =>
      (g.readLoopClause keyword segment.lexemes).toList) lexemes [] :=
    Tally.segments (by decide) fun segment _ => tallies.readLoopClause keyword _
  have same : (segmentsAt .terminator lexemes).flatMap (fun segment =>
      (g.readLoopClause keyword segment.lexemes).toList) =
        (splitTopLevel lexemes .terminator).flatMap fun segment =>
          (g.readLoopClause keyword segment).toList := by
    rw [splitTopLevel, List.flatMap_map]
  rw [same, split] at clauses
  simpa using clauses

theorem readFor (keyword : Lexeme) (rest : List Lexeme) :
    Tally [(g.readFor keyword rest).1] rest (g.readFor keyword rest).2 := by
  rw [readFor_eq]
  rcases declared : readLoopDeclarator rest with ⟨declarator, declaredRest⟩
  dsimp only
  rcases held : readLoopHolder declaredRest with ⟨holder, heldRest⟩
  dsimp only
  rcases grouped : readLoopGroup keyword heldRest with ⟨group, groupRest⟩
  dsimp only
  have looped : Tally holder.toList rest heldRest := by
    have first := Tally.loopDeclarator rest
    have second := Tally.loopHolder declaredRest
    rw [declared] at first
    rw [held] at second
    exact .trans first second
  have body := tallies.readBlock (lastPosition keyword rest) groupRest
  rcases Tally.loopGroup grouped with ⟨inner, rfl, within⟩ | ⟨tree, rfl, fault⟩
  · dsimp only
    split
    · next counting =>
      simp only [Bool.and_eq_true, Option.isNone_iff_eq_none] at counting
      obtain rfl : holder = none := counting.1.2
      split
      · next init condition step clauses =>
        exact .node rfl rfl
          ((looped.trans (within _ (tallies.loopClauses keyword clauses))).trans body)
      · have behind : groupRest ⊆ heldRest := by
          have suffix := readLoopGroup_suffix keyword heldRest
          rw [grouped] at suffix
          exact suffix.subset
        exact .fault (List.Subset.trans body.within (List.Subset.trans behind looped.within))
    · have iterable : Tally [if inner.isEmpty then .list [] else
          g.readWhole keyword.position inner] inner [] := by
        split
        · next empty =>
          rw [List.isEmpty_iff.mp empty]
          exact .node rfl rfl (.refl [])
        · exact tallies.readWhole _ inner
      exact .node rfl rfl (looped.trans ((within _ iterable).trans body))
  · exact .node rfl rfl (looped.trans (fault.trans body))

/-! ## Named things -/

theorem readNamedSub (keyword : Lexeme) (rest : List Lexeme) :
    Tally [(g.readNamedSub keyword rest).1] rest (g.readNamedSub keyword rest).2 := by
  simp only [Grammar.readNamedSub, tallies.attributes]
  split
  · next tree named => exact Tally.readName_error named
  · next name behind named =>
    obtain ⟨word, isWord, rfl⟩ := readName_of_ok named
    refine .node rfl rfl (.skip_head (Lexeme.silent_of_word isWord)
      (.trans (tallies.readParameters behind) ?_))
    split
    · next empty =>
      rw [List.isEmpty_iff.mp empty]
      exact .refl []
    · exact tallies.readBlock _ _

theorem readOptionalBlock (finish : Position) (rest : List Lexeme) :
    Tally ((g.readOptionalBlock finish rest).1.getD []) rest
      (g.readOptionalBlock finish rest).2 := by
  simp only [Grammar.readOptionalBlock]
  split
  · exact tallies.readBlock finish rest
  · exact .refl _

theorem readClass (keyword : Lexeme) (rest : List Lexeme) :
    Tally [(g.readClass keyword rest).1] rest (g.readClass keyword rest).2 := by
  simp only [Grammar.readClass, tallies.attributes]
  split
  · next tree named => exact Tally.readName_error named
  · next name behind named =>
    obtain ⟨word, isWord, rfl⟩ := readName_of_ok named
    exact .node rfl rfl (.skip_head (Lexeme.silent_of_word isWord)
      (.trans (Tally.readVersion behind) (tallies.readOptionalBlock _ _)))

theorem readField (keyword : Lexeme) (rest : List Lexeme) :
    Tally [(g.readField keyword rest).1] rest (g.readField keyword rest).2 := by
  rcases rest with _ | ⟨first, rest⟩
  · exact .fault (List.Subset.refl _)
  · simp only [Grammar.readField, tallies.attributes, List.head?_cons, Option.bind_some,
      List.tail_cons]
    split
    · exact .fault (List.Subset.refl _)
    · next holder spelled =>
      have held : Tally [holder] (first :: rest) rest := Tally.asVar? spelled
      rcases rest with _ | ⟨op, value⟩
      · exact .node rfl rfl held
      · dsimp only
        split
        · next default =>
          refine .node rfl rfl (.trans held ?_)
          dsimp only
          split
          · exact .fault (List.nil_subset _)
          · exact .skip_head (Lexeme.silent_of_default default) (tallies.readWhole _ _)
        · exact .node rfl rfl held

theorem readMethodDecl (keyword : Lexeme) (rest : List Lexeme) :
    Tally [(g.readMethodDecl keyword rest).1] rest (g.readMethodDecl keyword rest).2 := by
  simp only [Grammar.readMethodDecl, tallies.attributes]
  split
  · next tree named => exact Tally.readName_error named
  · next name behind named =>
    obtain ⟨word, isWord, rfl⟩ := readName_of_ok named
    exact .node rfl rfl (.skip_head (Lexeme.silent_of_word isWord)
      (.trans (tallies.readParameters behind) (tallies.readBlock _ _)))

theorem readPackage (keyword : Lexeme) (rest : List Lexeme) :
    Tally [(g.readPackage keyword rest).1] rest (g.readPackage keyword rest).2 := by
  simp only [Grammar.readPackage]
  split
  · next tree named => exact Tally.readName_error named
  · next name behind named =>
    obtain ⟨word, isWord, rfl⟩ := readName_of_ok named
    exact .node rfl rfl (.skip_head (Lexeme.silent_of_word isWord)
      (.trans (Tally.readVersion behind) (tallies.readOptionalBlock _ _)))

theorem readUse (negated : Bool) (keyword : Lexeme) (rest : List Lexeme) :
    Tally [(g.readUse negated keyword rest).1] rest (g.readUse negated keyword rest).2 := by
  simp only [Grammar.readUse]
  rcases versioned : readVersion rest with ⟨_ | version, behind⟩
  · obtain rfl := readVersion_none versioned
    dsimp only
    split
    · next tree named => exact Tally.readName_error named
    · next name behind named =>
      obtain ⟨word, isWord, rfl⟩ := readName_of_ok named
      have imported (left : List Lexeme) :
          Tally (if left.isEmpty then [] else
            Grammar.importsOf (g.readWhole keyword.position left)) left [] := by
        split
        · next empty =>
          rw [List.isEmpty_iff.mp empty]
          exact .refl []
        · exact (tallies.readWhole _ left).importsOf
      refine .node rfl rfl (.skip_head (Lexeme.silent_of_word isWord) ?_)
      dsimp only [Node.children]
      split
      · exact imported behind
      · exact .trans (Tally.readVersion behind) (imported _)
  · have tally := Tally.readVersion rest
    rw [versioned] at tally
    exact .node rfl rfl tally

/-! ## Blocks with a head -/

theorem readHandler (finish : Position) (rest : List Lexeme) :
    Tally ((g.readHandler finish rest).1.toList.flatMap Node.handlerParts) rest
      (g.readHandler finish rest).2 := by
  rcases rest with _ | ⟨keyword, rest⟩
  · exact .refl []
  · rw [readHandler_cons]
    split
    · next spelled =>
      have handler := Tally.trans (Tally.handlerHolder rest)
        (tallies.readBlock finish (readHandlerHolder rest).2)
      rw [Option.toList_some, List.flatMap_singleton]
      exact .skip_head (Lexeme.silent_of_spelled spelled (by decide)) handler
    · exact .refl _

theorem readTry (keyword : Lexeme) (rest : List Lexeme) :
    Tally [(g.readTry keyword rest).1] rest (g.readTry keyword rest).2 :=
  .node rfl rfl (((tallies.readBlock _ rest).trans (tallies.readHandler _ _)).trans
    (tallies.readContinuation _ (by decide) "finally" _))

theorem readPhaseBlock (phase : Lexeme) (rest : List Lexeme) :
    Tally [(g.readPhaseBlock phase rest).1] rest (g.readPhaseBlock phase rest).2 :=
  .node rfl rfl (tallies.readBlock _ rest)

/-! ## Dispatch -/

theorem readControl {keyword : Lexeme} (quiet : keyword.Silent) (rest : List Lexeme) :
    Tally [g.readControl keyword rest] (keyword :: rest) [] := by
  refine .skip_head quiet ?_
  simp only [Grammar.readControl]
  split
  · exact Tally.finish (tallies.readConditional _ _ _)
  · exact Tally.finish (tallies.readConditional _ _ _)
  · exact Tally.finish (tallies.readWhile _ _ _)
  · exact Tally.finish (tallies.readWhile _ _ _)
  · exact Tally.finish (tallies.readFor _ _)
  · exact Tally.finish (tallies.readFor _ _)
  · exact .fault (List.nil_subset _)

theorem readReserved {keyword : Lexeme} (quiet : keyword.Silent) (rest : List Lexeme) :
    Tally [g.readReserved keyword rest] (keyword :: rest) [] := by
  have whole := tallies.readWhole keyword.position (keyword :: rest)
  simp only [Grammar.readReserved]
  split
  · split
    · exact .skip_head quiet (Tally.finish (tallies.readNamedSub keyword rest))
    · exact whole
  · exact .skip_head quiet (Tally.finish (tallies.readClass keyword rest))
  · exact .skip_head quiet (Tally.finish (tallies.readField keyword rest))
  · exact .skip_head quiet (Tally.finish (tallies.readMethodDecl keyword rest))
  · exact .skip_head quiet (Tally.finish (tallies.readPackage keyword rest))
  · exact .skip_head quiet (Tally.finish (tallies.readUse false keyword rest))
  · exact .skip_head quiet (Tally.finish (tallies.readUse true keyword rest))
  · exact .skip_head quiet (Tally.finish (tallies.readTry keyword rest))
  · exact .fault (List.nil_subset _)
  · exact .fault (List.nil_subset _)
  · exact .skip_head quiet (Tally.finish (tallies.readTopic .given keyword rest))
  · exact .skip_head quiet (Tally.finish (tallies.readTopic .whenever keyword rest))
  · exact .skip_head quiet (Tally.finish (tallies.readTopic .matching keyword rest))
  · exact .skip_head quiet (Tally.finish (tallies.readTopic .case keyword rest))
  · exact .skip_head quiet (Tally.finish (.node rfl rfl (tallies.readBlock _ rest)))
  · exact whole

theorem readSimple (head : Lexeme) (rest : List Lexeme) :
    Tally [g.readSimple head rest] (head :: rest) [] := by
  have whole := tallies.readWhole head.position (head :: rest)
  simp only [Grammar.readSimple]
  split
  · next role => exact tallies.readControl (Lexeme.silent_of_role role (by decide)) rest
  · next role => exact tallies.readReserved (Lexeme.silent_of_role role (by decide)) rest
  · exact Tally.finish (.node rfl rfl (tallies.readBlock _ (head :: rest)))
  · next role =>
    split
    · exact .skip_head (Lexeme.silent_of_role role (by decide))
        (Tally.finish (tallies.readPhaseBlock head rest))
    · exact whole
  · exact whole.foldDeclaration
  · exact whole

/-- The condition of a modifier comes first among the parts. -/
theorem readModified (head : Lexeme) (rest : List Lexeme) :
    Tally [g.readModified head rest] (head :: rest) [] := by
  simp only [Grammar.readModified]
  split
  · exact tallies.readSimple head rest
  · split
    · next first before keyword after found =>
      have whole := cutAtTopLevel?_whole found
      have modifier := cutAtTopLevel?_found found
      have quiet : keyword.Silent :=
        Lexeme.silent_of_role (of_decide_eq_true (Bool.and_eq_true_iff.mp modifier).1) (by decide)
      have condition : Tally
          [if after.isEmpty then .expected .condition none keyword.position
            else g.readWhole keyword.position after] after [] := by
        split
        · exact .fault (List.nil_subset _)
        · exact tallies.readWhole _ _
      have parts := Tally.swap (.skip_head quiet condition) (tallies.readSimple first before)
      rw [← whole]
      simp only [Grammar.modified]
      split <;> exact .node rfl rfl parts
    · exact tallies.readSimple head rest

theorem readStatement (lexemes : List Lexeme) :
    Tally (g.readStatement lexemes).toList lexemes [] := by
  have whole : Tally (g.readStatement lexemes).toList (withoutTerminator lexemes) [] := by
    rw [Grammar.readStatement]
    generalize withoutTerminator lexemes = body
    rcases body with _ | ⟨head, _ | ⟨colon, rest⟩⟩
    · exact .refl []
    · exact tallies.readModified head []
    · dsimp only
      split
      · next label =>
        refine .skip_head (Lexeme.silent_of_role label.1 (by decide))
          (.skip_head (Lexeme.silent_of_role label.2 (by decide)) ?_)
        rcases rest with _ | ⟨first, rest⟩
        · exact .fault (List.nil_subset _)
        · exact (tallies.readModified first rest).labelled head.text
      · exact tallies.readModified head (colon :: rest)
  rcases List.eq_nil_or_concat lexemes with rfl | ⟨front, last, rfl⟩
  · exact whole
  · rw [List.concat_eq_append] at *
    rw [withoutTerminator, List.getLast?_concat, List.dropLast_concat] at whole
    split at whole
    · next ends =>
      exact (whole.all_before [last]).skip
        (Lexeme.silent_of_role (of_decide_eq_true ends) (by decide))
    · exact whole

theorem readStatements (lexemes : List Lexeme) : Tally (g.readStatements lexemes) lexemes [] := by
  rw [Grammar.readStatements]
  fun_induction splitStatements lexemes with
  | case1 => exact .refl []
  | case2 lexeme rest extent ih =>
    have first := tallies.readStatement ((lexeme :: rest).take extent)
    have statements := (first.all_before ((lexeme :: rest).drop extent)).trans ih
    rw [List.take_append_drop] at statements
    rw [List.filterMap_cons]
    split
    · next empty => rwa [empty] at statements
    · next tree read => rwa [read] at statements

theorem step : g.step.Tallies where
  whole := tallies.readWhole
  operation := tallies.readOperation
  climb level _ _ _ tally := tallies.readClimb level tally
  operand := tallies.readOperand
  primary := tallies.readPrimary
  chain _ _ _ tally := tallies.readChain tally
  items := tallies.readItems
  arguments := tallies.readArguments
  attributes := tallies.attributes
  clauses := tallies.readClauses
  statements := tallies.readStatements

end Tallies

end Grammar

end SigilScript
