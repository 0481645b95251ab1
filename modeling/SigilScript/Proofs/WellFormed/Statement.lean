import SigilScript.Program
import SigilScript.Proofs.Grammar.Shape
import SigilScript.Proofs.Grammar.StatementPlacement
import SigilScript.Proofs.WellFormed.Expression

/-! # Every tree read is well formed

What each production of a statement builds is formed, and so is what the grammar builds at every
level: no statement is a parameter, and everything inside its tree fits, whatever faults there are
beside it.
-/

namespace SigilScript

open Node (Formed AllFormed Signed)

variable {node : Node}

/-! ## Reading without the grammar -/

theorem formed_readName_error {wanted : Construct} {anchor : Position} {rest : List Lexeme}
    (read : readName wanted anchor rest = .error node) : node.Formed := by
  obtain rfl := readName_of_error read
  exact .error _

namespace Grammar

/-- A declaration takes its initializer from the assignment around it. -/
theorem formed_foldDeclaration (formed : node.Formed) : (foldDeclaration node).Formed := by
  simp only [foldDeclaration]
  split
  · next declarator targets value =>
    have sides := formed.children rfl
    have declaration : (Node.declaration declarator targets none).Formed :=
      sides _ List.mem_cons_self
    have targeted : AllFormed targets := by simpa [Node.children] using declaration.children rfl
    have valued : value.Formed := sides _ (List.mem_cons_of_mem _ List.mem_cons_self)
    exact .node rfl trivial rfl (targeted.append (.single valued))
  · exact formed

theorem allFormed_importsOf (formed : node.Formed) : AllFormed (importsOf node) := by
  simp only [importsOf]
  split
  · exact formed.children rfl
  · exact .single formed

theorem formed_handlerVariable (opener : Lexeme) (lexemes : List Lexeme) :
    (handlerVariable opener lexemes).Formed := by
  rcases lexemes with _ | ⟨holder, _ | ⟨extra, lexemes⟩⟩
  · exact .error _
  · simp only [handlerVariable]
    rcases spelled : holder.asVar? with _ | tree
    · exact .error _
    · exact Lexeme.formed_of_asVar? spelled
  · exact .error _

theorem formed_modified (keyword : String) {condition : Node} {body : List Node}
    (first : condition.Formed) (others : AllFormed body) :
    (modified keyword condition body).Formed := by
  have parts : AllFormed (condition :: body) := .cons first others
  simp only [modified]
  split
  · exact .node rfl trivial rfl ((parts.append .nil).append .nil)
  · exact .node rfl trivial rfl ((parts.append .nil).append .nil)
  · exact .node rfl trivial rfl parts
  · exact .node rfl trivial rfl parts
  · exact .node rfl trivial rfl parts

theorem allFormed_readLoopHolder (rest : List Lexeme) :
    AllFormed (readLoopHolder rest).1.toList := by
  simp only [readLoopHolder]
  split
  · next holder spelled =>
    obtain ⟨first, -, spelled⟩ := Option.bind_eq_some_iff.mp spelled
    exact .single (Lexeme.formed_of_asVar? spelled)
  · exact .nil

theorem formed_readLoopGroup_error {keyword : Lexeme} {rest : List Lexeme}
    (read : (readLoopGroup keyword rest).1 = .error node) : node.Formed := by
  rcases readLoopGroup_of_error (Prod.ext read rfl) with ⟨rfl, -⟩ | ⟨_, _, fault, -, -, -, rfl⟩
  · exact .error _
  · exact .error fault

theorem allFormed_readHandlerHolder (rest : List Lexeme) :
    AllFormed (readHandlerHolder rest).1.toList := by
  rcases rest with _ | ⟨opener, rest⟩
  · exact .nil
  · simp only [readHandlerHolder]
    split
    · exact readGroup_induction (motive := fun holder : Option Node => AllFormed holder.toList)
        opener rest (fun inner => .single (formed_handlerVariable opener inner))
        fun fault => .single (.error fault)
    · exact .nil

namespace Forms

variable {g : Grammar} (forms : g.Forms)
include forms

/-! ## Conditionals and loops -/

theorem readCondition (keyword : Lexeme) (rest : List Lexeme) :
    (g.readCondition keyword rest).1.Formed := by
  rcases rest with _ | ⟨opener, inner⟩
  · exact .error _
  · simp only [Grammar.readCondition]
    split
    · refine readGroup_induction opener inner (fun inside => ?_) .error
      split
      · exact .error _
      · exact forms.readWhole _ _
    · exact .error _

/-- A condition and its block. -/
theorem conditioned (finish : Position) (keyword : Lexeme) (rest : List Lexeme) :
    AllFormed ((g.readCondition keyword rest).1 ::
      (g.readBlock finish (g.readCondition keyword rest).2).1) :=
  .cons (forms.readCondition keyword rest) (forms.readBlock finish _)

theorem readClauses (finish : Position) (rest : List Lexeme) :
    AllFormed ((g.readClauses finish rest).1.flatMap Node.clauseParts) := by
  rcases rest with _ | ⟨keyword, rest⟩
  · exact .nil
  · simp only [Grammar.readClauses]
    split
    · rw [List.flatMap_cons, Node.clauseParts]
      exact (forms.conditioned finish keyword rest).append (forms.clauses finish _)
    · exact .nil

theorem readContinuation (finish : Position) (category : Category) (keyword : String)
    (rest : List Lexeme) :
    AllFormed ((g.readContinuation finish category keyword rest).1.getD []) := by
  rcases rest with _ | ⟨next, rest⟩
  · exact .nil
  · simp only [Grammar.readContinuation]
    split
    · exact forms.readBlock finish rest
    · exact .nil

theorem readConditional (polarity : Polarity) (keyword : Lexeme) (rest : List Lexeme) :
    (g.readConditional polarity keyword rest).1.Formed :=
  .node rfl trivial rfl (((forms.conditioned _ keyword rest).append (forms.readClauses _ _)).append
    (forms.readContinuation _ _ _ _))

theorem readWhile (polarity : Polarity) (keyword : Lexeme) (rest : List Lexeme) :
    (g.readWhile polarity keyword rest).1.Formed :=
  .node rfl trivial rfl (forms.conditioned _ keyword rest)

theorem readTopic (topic : Topic) (keyword : Lexeme) (rest : List Lexeme) :
    (g.readTopic topic keyword rest).1.Formed :=
  .node rfl trivial rfl (forms.conditioned _ keyword rest)

theorem readLoopClause (keyword : Lexeme) (lexemes : List Lexeme) :
    AllFormed (g.readLoopClause keyword lexemes).toList := by
  simp only [Grammar.readLoopClause]
  split
  · exact .nil
  · have clause := forms.readWhole keyword.position lexemes
    refine .single ?_
    split
    · exact formed_foldDeclaration clause
    · exact clause

theorem readFor (keyword : Lexeme) (rest : List Lexeme) : (g.readFor keyword rest).1.Formed := by
  rw [readFor_eq]
  dsimp only
  have holder := allFormed_readLoopHolder (readLoopDeclarator rest).2
  have body := forms.readBlock (lastPosition keyword rest)
    (readLoopGroup keyword (readLoopHolder (readLoopDeclarator rest).2).2).2
  split
  · next fault group =>
    exact .node rfl trivial rfl (holder.append (.cons (formed_readLoopGroup_error group) body))
  · next inner _ =>
    split
    · split
      · next init condition step _ =>
        have clauses := (forms.readLoopClause keyword init).append
          (forms.readLoopClause keyword condition)
        exact .node rfl trivial rfl
          ((clauses.append (forms.readLoopClause keyword step)).append body)
      · exact .error _
    · have iterable : (if inner.isEmpty then .list [] else
          g.readWhole keyword.position inner : Node).Formed := by
        split
        · exact .node rfl trivial rfl .nil
        · exact forms.readWhole _ _
      exact .node rfl trivial rfl (holder.append (.cons iterable body))

/-! ## Named things -/

theorem readNamedSub (keyword : Lexeme) (rest : List Lexeme) :
    (g.readNamedSub keyword rest).1.Formed := by
  simp only [Grammar.readNamedSub]
  split
  · next tree named => exact formed_readName_error named
  · next name behind named =>
    refine .signed rfl trivial (forms.readParameters behind) ?_
    dsimp only [Node.unsigned]
    split
    · exact .nil
    · exact forms.readBlock _ _

theorem readOptionalBlock (finish : Position) (rest : List Lexeme) :
    AllFormed ((g.readOptionalBlock finish rest).1.getD []) := by
  simp only [Grammar.readOptionalBlock]
  split
  · exact forms.readBlock finish rest
  · exact .nil

theorem readClass (keyword : Lexeme) (rest : List Lexeme) :
    (g.readClass keyword rest).1.Formed := by
  simp only [Grammar.readClass]
  split
  · next tree named => exact formed_readName_error named
  · exact .node rfl trivial rfl (forms.readOptionalBlock _ _)

theorem readField (keyword : Lexeme) (rest : List Lexeme) :
    (g.readField keyword rest).1.Formed := by
  simp only [Grammar.readField]
  split
  · exact .error _
  · next holder spelled =>
    obtain ⟨first, -, spelled⟩ := Option.bind_eq_some_iff.mp spelled
    have held := Lexeme.formed_of_asVar? spelled
    rcases (g.attributes rest.tail).2 with _ | ⟨op, value⟩
    · exact .node rfl trivial rfl (.single held)
    · dsimp only
      split
      · refine .node rfl trivial rfl (.cons held (.single ?_))
        split
        · exact .error _
        · exact forms.readWhole _ _
      · exact .node rfl trivial rfl (.single held)

theorem readMethodDecl (keyword : Lexeme) (rest : List Lexeme) :
    (g.readMethodDecl keyword rest).1.Formed := by
  simp only [Grammar.readMethodDecl]
  split
  · next tree named => exact formed_readName_error named
  · next name behind named =>
    exact .signed rfl trivial (forms.readParameters behind) (forms.readBlock _ _)

theorem readPackage (keyword : Lexeme) (rest : List Lexeme) :
    (g.readPackage keyword rest).1.Formed := by
  simp only [Grammar.readPackage]
  split
  · next tree named => exact formed_readName_error named
  · exact .node rfl trivial rfl (forms.readOptionalBlock _ _)

theorem readUse (negated : Bool) (keyword : Lexeme) (rest : List Lexeme) :
    (g.readUse negated keyword rest).1.Formed := by
  simp only [Grammar.readUse]
  split
  · exact .node rfl trivial rfl .nil
  · split
    · next tree named => exact formed_readName_error named
    · have imported (left : List Lexeme) :
          AllFormed (if left.isEmpty then [] else
            importsOf (g.readWhole keyword.position left)) := by
        split
        · exact .nil
        · exact allFormed_importsOf (forms.readWhole _ _)
      exact .node rfl trivial rfl (imported _)

/-! ## Blocks with a head -/

theorem readHandler (finish : Position) (rest : List Lexeme) :
    AllFormed ((g.readHandler finish rest).1.toList.flatMap Node.handlerParts) := by
  rcases rest with _ | ⟨keyword, rest⟩
  · exact .nil
  · rw [readHandler_cons]
    split
    · rw [Option.toList_some, List.flatMap_singleton]
      exact (allFormed_readHandlerHolder rest).append (forms.readBlock finish _)
    · exact .nil

theorem readTry (keyword : Lexeme) (rest : List Lexeme) : (g.readTry keyword rest).1.Formed :=
  .node rfl trivial rfl (((forms.readBlock _ rest).append (forms.readHandler _ _)).append
    (forms.readContinuation _ _ _ _))

theorem readPhaseBlock (phase : Lexeme) (rest : List Lexeme) :
    (g.readPhaseBlock phase rest).1.Formed :=
  .signed rfl trivial (fun _ member => absurd member List.not_mem_nil) (forms.readBlock _ rest)

/-! ## Dispatch -/

theorem readControl (keyword : Lexeme) (rest : List Lexeme) :
    (g.readControl keyword rest).Formed := by
  simp only [Grammar.readControl]
  split
  · exact Node.formed_finish (forms.readConditional _ _ _)
  · exact Node.formed_finish (forms.readConditional _ _ _)
  · exact Node.formed_finish (forms.readWhile _ _ _)
  · exact Node.formed_finish (forms.readWhile _ _ _)
  · exact Node.formed_finish (forms.readFor _ _)
  · exact Node.formed_finish (forms.readFor _ _)
  · exact .error _

theorem readReserved (keyword : Lexeme) (rest : List Lexeme) :
    (g.readReserved keyword rest).Formed := by
  have whole := forms.readWhole keyword.position (keyword :: rest)
  simp only [Grammar.readReserved]
  split
  · split
    · exact Node.formed_finish (forms.readNamedSub keyword rest)
    · exact whole
  · exact Node.formed_finish (forms.readClass keyword rest)
  · exact Node.formed_finish (forms.readField keyword rest)
  · exact Node.formed_finish (forms.readMethodDecl keyword rest)
  · exact Node.formed_finish (forms.readPackage keyword rest)
  · exact Node.formed_finish (forms.readUse false keyword rest)
  · exact Node.formed_finish (forms.readUse true keyword rest)
  · exact Node.formed_finish (forms.readTry keyword rest)
  · exact .error _
  · exact .error _
  · exact Node.formed_finish (forms.readTopic .given keyword rest)
  · exact Node.formed_finish (forms.readTopic .whenever keyword rest)
  · exact Node.formed_finish (forms.readTopic .matching keyword rest)
  · exact Node.formed_finish (forms.readTopic .case keyword rest)
  · exact Node.formed_finish (.node rfl trivial rfl (forms.readBlock _ rest))
  · exact whole

theorem readSimple (head : Lexeme) (rest : List Lexeme) : (g.readSimple head rest).Formed := by
  have whole := forms.readWhole head.position (head :: rest)
  simp only [Grammar.readSimple]
  split
  · exact forms.readControl head rest
  · exact forms.readReserved head rest
  · exact Node.formed_finish (.node rfl trivial rfl (forms.readBlock _ (head :: rest)))
  · split
    · exact Node.formed_finish (forms.readPhaseBlock head rest)
    · exact whole
  · exact formed_foldDeclaration whole
  · exact whole

theorem readModified (head : Lexeme) (rest : List Lexeme) :
    (g.readModified head rest).Formed := by
  simp only [Grammar.readModified]
  split
  · exact forms.readSimple head rest
  · split
    · next first before keyword after _ =>
      refine formed_modified keyword.text ?_ (.single (forms.readSimple first before))
      split
      · exact .error _
      · exact forms.readWhole _ _
    · exact forms.readSimple head rest

theorem readStatement (lexemes : List Lexeme) :
    AllFormed (g.readStatement lexemes).toList := by
  rw [Grammar.readStatement]
  rcases withoutTerminator lexemes with _ | ⟨head, _ | ⟨colon, rest⟩⟩
  · exact .nil
  · exact .single (forms.readModified head [])
  · dsimp only
    split
    · rcases rest with _ | ⟨first, rest⟩
      · exact .single (.error _)
      · exact .single ((forms.readModified first rest).labelled head.text)
    · exact .single (forms.readModified head (colon :: rest))

theorem readStatements (lexemes : List Lexeme) : AllFormed (g.readStatements lexemes) := by
  intro tree member
  obtain ⟨statement, -, read⟩ := List.mem_filterMap.mp member
  exact forms.readStatement statement tree (Option.mem_toList.mpr read)

theorem step : g.step.Forms where
  whole := forms.readWhole
  operation := forms.readOperation
  climb level _ rest formed := forms.readClimb level formed rest
  operand := forms.readOperand
  primary := forms.readPrimary
  chain _ rest formed := forms.readChain formed rest
  items := forms.readItems
  arguments := forms.readArguments
  clauses := forms.readClauses
  statements := forms.readStatements

end Forms

/-- What is read is formed, at every level. -/
theorem forms_level (n : Nat) : (level n).Forms := by
  induction n with
  | zero =>
    exact {
      whole := fun _ _ => .error _
      operation := fun _ _ _ => .error _
      climb := fun _ _ _ formed => formed
      operand := fun _ _ => .error _
      primary := fun _ _ => .error _
      chain := fun _ _ formed => formed
      items := fun _ => .nil
      arguments := fun _ => .nil
      clauses := fun _ _ => .nil
      statements := fun lexemes tree member => by
        obtain ⟨lexeme, -, rfl⟩ := List.mem_map.mp member
        exact .error _ }
  | succ n ih => exact ih.step

end Grammar

/-- The tree of every piece is formed: a scan fault is a fault and nothing else. -/
theorem Piece.formed_of_node? {piece : Piece} (read : piece.node? = some node) : node.Formed := by
  simp only [Piece.node?] at read
  split at read
  · obtain rfl := Option.some.inj read
    exact .error _
  · next lexemes =>
    have statement := (Grammar.forms_level piece.lexemes.length).readStatement piece.lexemes
    exact statement node (Option.mem_toList.mpr read)

/-- Every tree of every text is well formed, and none is a parameter: whatever is inside it keeps
the promise of its kind, and parameters stand directly in the signature of a function or a method
and nowhere else. -/
theorem parse_wellFormed (text : List Char) :
    ∀ tree ∈ parse text,
      tree.isParameter = false ∧ ∀ part : Node, part.Inside tree → part.Fits := by
  intro tree member
  obtain ⟨piece, -, read⟩ := List.mem_filterMap.mp member
  have formed := piece.formed_of_node? read
  exact ⟨formed.other, formed.wellFormed⟩

/-- A signature keeps the fault beside its parameter, and the slice in the body is one of an
array. -/
theorem parse_wellFormed_sub :
    ∃ tree, tree ∈ parse "sub f($x, 1) \x7b @a[0] = 2 / $y++ \x7d".toList ∧
      tree.signature = [.parameter (.var .scalar "x") none,
        .error ⟨.expected .parameter (some "1"), ⟨1, 11⟩⟩] ∧
      tree.isParameter = false ∧ tree.Fits ∧
      (Node.access .arraySlice (.var .array "a") (.number "0")).Fits := by
  obtain ⟨tree, shape⟩ : ∃ tree : Node, tree = .sub (some "f")
      [.parameter (.var .scalar "x") none,
        .error ⟨.expected .parameter (some "1"), ⟨1, 11⟩⟩]
      [.assignment "=" (.access .arraySlice (.var .array "a") (.number "0"))
        (.binaryOp "/" (.number "2") (.trailing "++" (.var .scalar "y")))] := ⟨_, rfl⟩
  have read : parse "sub f($x, 1) \x7b @a[0] = 2 / $y++ \x7d".toList = [tree] := by
    subst shape
    with_unfolding_all rfl
  have member : tree ∈ parse "sub f($x, 1) \x7b @a[0] = 2 / $y++ \x7d".toList := by
    rw [read]
    exact List.mem_singleton_self tree
  obtain ⟨other, fits⟩ := parse_wellFormed _ tree member
  have slice : (Node.access .arraySlice (.var .array "a") (.number "0")).Inside tree := by
    subst shape
    exact .child (List.mem_append_right _ List.mem_cons_self) (.child List.mem_cons_self .here)
  refine ⟨tree, member, ?_, other, fits tree .here, fits _ slice⟩
  subst shape
  rfl

end SigilScript
