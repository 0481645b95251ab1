import SigilScript.Proofs.Grammar.Placement

/-! # Statements do not depend on places

The productions of statements follow one another under a move of places as those of expressions
do. With them one step of the grammar follows on lists that are one lexeme longer, and so every
level follows every level that is at least as high.
-/

namespace SigilScript

/-- The keyword of a loop over what stands in its parentheses. -/
def Lexeme.BeginsLoop (keyword : Lexeme) : Prop :=
  keyword.category = .controlKeyword ∧ (keyword.text = "for" ∨ keyword.text = "foreach")

variable {move : Position → Position}

namespace Grammar

/-- The next brace of depth zero is the same one in another place. -/
theorem atBrace_moved (rest : List Lexeme) :
    atBrace (rest.map (Lexeme.moved move)) = (atBrace rest).map (Lexeme.moved move) := by
  simp only [atBrace]
  rw [cutAtTopLevel?_moved fun lexeme => by rw [Lexeme.category_moved]]
  cases cutAtTopLevel? (fun lexeme => lexeme.category = .leftBrace) 0 rest <;> rfl

theorem foldDeclaration_moved (node : Node) :
    foldDeclaration (node.moved move) = (foldDeclaration node).moved move := by
  cases node with
  | assignment op target value =>
    by_cases plain : op = "="
    · subst plain
      cases target with
      | declaration declarator targets initializer => cases initializer <;> rfl
      | _ => rfl
    · simp [foldDeclaration, Node.moved, plain]
  | _ => rfl

theorem importsOf_moved (node : Node) :
    importsOf (node.moved move) = (importsOf node).map (Node.moved move) := by
  cases node with
  | collection kind items =>
    cases kind with
    | list => exact Node.movedAll_eq_map items
    | _ => rfl
  | _ => rfl

theorem handlerVariable_moved (opener : Lexeme) (lexemes : List Lexeme) :
    handlerVariable (opener.moved move) (lexemes.map (Lexeme.moved move)) =
      (handlerVariable opener lexemes).moved move := by
  rcases lexemes with _ | ⟨holder, _ | ⟨extra, rest⟩⟩
  · rfl
  · simp only [List.map_cons, List.map_nil, handlerVariable, Lexeme.asVar?_moved]
    cases spelled : holder.asVar? with
    | none => rfl
    | some var => exact (Lexeme.moved_of_asVar? spelled).symm
  · rfl

theorem dangling_moved (keyword : Lexeme) :
    dangling (keyword.moved move) = (dangling keyword).moved move := by
  cases keyword; rfl

theorem modified_moved (keyword : String) (condition : Node) (body : List Node) :
    modified keyword (condition.moved move) (body.map (Node.moved move)) =
      (modified keyword condition body).moved move := by
  simp only [modified]
  split <;> simp only [Node.moved_conditionalOf, Node.moved, Node.movedAll_eq_map,
    Node.movedOption_eq_map, Option.map_none]

/-- The name of a parent is the text of a lexeme, wherever it stands. -/
theorem parent_moved (marks : List Attribute) :
    ((marks.map (Attribute.moved move)).find? fun mark => mark.name = "isa").bind
        (fun mark => (mark.args.bind List.head?).map Lexeme.text) =
      (marks.find? fun mark => mark.name = "isa").bind fun mark =>
        (mark.args.bind List.head?).map Lexeme.text := by
  rw [List.find?_map]
  have named : (fun mark : Attribute => decide (mark.name = "isa")) ∘ Attribute.moved move =
      fun mark => decide (mark.name = "isa") := rfl
  rw [named]
  cases marks.find? fun mark => mark.name = "isa" with
  | none => rfl
  | some mark =>
    rcases mark with ⟨name, _ | _ | ⟨first, args⟩⟩
    · rfl
    · rfl
    · simp only [Option.map_some, Option.bind_some, Attribute.moved, List.map_cons,
        List.head?_cons, Lexeme.text_moved]

theorem withoutTerminator_moved (lexemes : List Lexeme) :
    withoutTerminator (lexemes.map (Lexeme.moved move)) =
      (withoutTerminator lexemes).map (Lexeme.moved move) := by
  have last : (lexemes.map (Lexeme.moved move)).getLast?.any
      (fun last => last.category = .terminator) =
        lexemes.getLast?.any fun last => last.category = .terminator := by
    rw [List.getLast?_map]
    cases lexemes.getLast? with
    | none => rfl
    | some last => simp only [Option.map_some, Option.any_some, Lexeme.category_moved]
  simp only [withoutTerminator, last]
  split
  · rw [List.map_dropLast]
  · rfl

/-! ## The head of a loop -/

/-- The declarator of a loop variable, if one follows. -/
def readLoopDeclarator : List Lexeme → Parse (Option String)
  | [] => (none, [])
  | next :: after =>
    if next.category = .declarator then (some next.text, after) else (none, next :: after)

/-- The variable of a loop, if one follows. -/
def readLoopHolder (rest : List Lexeme) : Parse (Option Node) :=
  match rest.head?.bind Lexeme.asVar? with
  | some holder => (some holder, rest.tail)
  | none => (none, rest)

/-- The inside of the parentheses of a loop, or the fault in their place. -/
def readLoopGroup (keyword : Lexeme) : List Lexeme → Parse (Except Node (List Lexeme))
  | [] => (.error (.expected .loopParen none keyword.position), [])
  | opener :: after =>
    if opener.category = .leftParen then
      readGroup opener after .ok fun fault => .error (.error fault)
    else (.error (.expected .loopParen (some opener) keyword.position), opener :: after)

theorem readFor_eq (g : Grammar) (keyword : Lexeme) (rest : List Lexeme) :
    g.readFor keyword rest =
      let (declarator, declaredRest) := readLoopDeclarator rest
      let (holder, heldRest) := readLoopHolder declaredRest
      let (group, groupRest) := readLoopGroup keyword heldRest
      let (body, after) := g.readBlock (lastPosition keyword rest) groupRest
      match group with
      | .error node => (.foreachLoop none declarator holder node body, after)
      | .ok lexemes =>
        if declarator.isNone && holder.isNone && hasTopLevel lexemes .terminator then
          match splitTopLevel lexemes .terminator with
          | [init, condition, step] =>
            (.forLoop none (g.readLoopClause keyword init) (g.readLoopClause keyword condition)
              (g.readLoopClause keyword step) body, after)
          | _ => (.expected .loopClauses none keyword.position, after)
        else
          (.foreachLoop none declarator holder
            (if lexemes.isEmpty then .list [] else g.readWhole keyword.position lexemes) body,
            after) := rfl

theorem readLoopDeclarator_suffix (rest : List Lexeme) : (readLoopDeclarator rest).2 <:+ rest := by
  cases rest with
  | nil => exact List.suffix_refl _
  | cons next after =>
    simp only [readLoopDeclarator]
    split
    · exact List.suffix_cons ..
    · exact List.suffix_refl _

theorem readLoopHolder_suffix (rest : List Lexeme) : (readLoopHolder rest).2 <:+ rest := by
  simp only [readLoopHolder]
  split
  · exact List.tail_suffix rest
  · exact List.suffix_refl _

/-- What stands in front of the parentheses of a loop leaves an end of what it is given. -/
theorem readLoopHead_suffix (rest : List Lexeme) :
    (readLoopHolder (readLoopDeclarator rest).2).2 <:+ rest :=
  (readLoopHolder_suffix _).trans (readLoopDeclarator_suffix rest)

theorem readLoopGroup_suffix (keyword : Lexeme) (rest : List Lexeme) :
    (readLoopGroup keyword rest).2 <:+ rest := by
  cases rest with
  | nil => exact List.suffix_refl _
  | cons opener after =>
    simp only [readLoopGroup]
    split
    · exact (readGroup_suffix ..).trans (List.suffix_cons ..)
    · exact List.suffix_refl _

section Groups

variable {keyword : Lexeme} {rest after : List Lexeme}

theorem readLoopGroup_of_ok {inner : List Lexeme}
    (read : readLoopGroup keyword rest = (.ok inner, after)) :
    ∃ opener behind, rest = opener :: behind ∧ opener.category = .leftParen ∧
      takeGroup opener behind = (.ok inner, after) := by
  cases rest with
  | nil => simp [readLoopGroup] at read
  | cons opener behind =>
    simp only [readLoopGroup] at read
    split at read
    · next opens =>
      rcases readGroup_cases read with ⟨lexemes, taken, same⟩ | ⟨fault, -, same⟩
      · obtain rfl := Except.ok.inj same
        exact ⟨opener, behind, rfl, opens, taken⟩
      · contradiction
    · simp at read

/-- Without its parentheses a loop has a fault in their place, and without their end one at the
opener. -/
theorem readLoopGroup_of_error {tree : Node}
    (read : readLoopGroup keyword rest = (.error tree, after)) :
    (tree = .expected .loopParen rest.head? keyword.position ∧ after = rest) ∨
      ∃ opener behind fault, rest = opener :: behind ∧ opener.category = .leftParen ∧
        takeGroup opener behind = (.error fault, after) ∧ tree = .error fault := by
  cases rest with
  | nil =>
    obtain ⟨same, rfl⟩ := Prod.mk.inj read
    exact .inl ⟨(Except.error.inj same).symm, rfl⟩
  | cons opener behind =>
    simp only [readLoopGroup] at read
    split at read
    · next opens =>
      rcases readGroup_cases read with ⟨lexemes, -, same⟩ | ⟨fault, taken, same⟩
      · contradiction
      · exact .inr ⟨opener, behind, fault, rfl, opens, taken, Except.error.inj same⟩
    · obtain ⟨same, rfl⟩ := Prod.mk.inj read
      exact .inl ⟨(Except.error.inj same).symm, rfl⟩

theorem readLoopGroup_length {inner : List Lexeme}
    (read : readLoopGroup keyword rest = (.ok inner, after)) : inner.length < rest.length := by
  obtain ⟨opener, behind, rfl, -, taken⟩ := readLoopGroup_of_ok read
  exact Nat.lt_succ_of_lt (takeGroup_length taken)

end Groups

theorem readHandler_suffix (g : Grammar) (finish : Position) (rest : List Lexeme) :
    (g.readHandler finish rest).2 <:+ rest := by
  rcases rest with _ | ⟨keyword, _ | ⟨opener, after⟩⟩
  · exact List.suffix_refl _
  · simp only [readHandler]
    split
    · exact List.nil_suffix
    · exact List.suffix_refl _
  · simp only [readHandler]
    split
    · split
      · exact (Consumes.readBlock ..).trans ((readGroup_suffix ..).trans
          ((List.suffix_cons ..).trans (List.suffix_cons ..)))
      · exact (Consumes.readBlock ..).trans (List.suffix_cons ..)
    · exact List.suffix_refl _

theorem withoutTerminator_length (lexemes : List Lexeme) :
    (withoutTerminator lexemes).length ≤ lexemes.length := by
  simp only [withoutTerminator]
  split
  · rw [List.length_dropLast]
    exact Nat.sub_le _ _
  · exact Nat.le_refl _

/-- A statement is no longer than the list it was split from. -/
theorem splitStatements_length {lexemes part : List Lexeme}
    (member : part ∈ splitStatements lexemes) : part.length ≤ lexemes.length := by
  fun_induction splitStatements lexemes with
  | case1 => contradiction
  | case2 lexeme rest extent ih =>
    rcases List.mem_cons.mp member with rfl | member
    · exact List.length_take_le' _ _
    · exact Nat.le_trans (ih member) (List.drop_suffix _ _).length_le

theorem readLoopDeclarator_moved (rest : List Lexeme) :
    readLoopDeclarator (rest.map (Lexeme.moved move)) =
      (readLoopDeclarator rest).moved id move := by
  cases rest with
  | nil => rfl
  | cons next after =>
    simp only [List.map_cons, readLoopDeclarator, Lexeme.category_moved, Lexeme.text_moved]
    split <;> rfl

theorem readLoopHolder_moved (rest : List Lexeme) :
    readLoopHolder (rest.map (Lexeme.moved move)) =
      (readLoopHolder rest).moved (Option.map (Node.moved move)) move := by
  cases rest with
  | nil => rfl
  | cons first rest =>
    simp only [readLoopHolder, List.map_cons, List.head?_cons, Option.bind_some,
      Lexeme.asVar?_moved, List.tail_cons]
    cases spelled : first.asVar? with
    | none => rfl
    | some holder => rw [Parse.moved_mk, Option.map_some, Lexeme.moved_of_asVar? spelled]

theorem readLoopGroup_moved (keyword : Lexeme) (rest : List Lexeme) :
    readLoopGroup (keyword.moved move) (rest.map (Lexeme.moved move)) =
      (readLoopGroup keyword rest).moved
        (fun group => (group.map (List.map (Lexeme.moved move))).mapError (Node.moved move))
        move := by
  cases rest with
  | nil => rfl
  | cons opener after =>
    simp only [List.map_cons, readLoopGroup, Lexeme.category_moved]
    split
    · exact readGroup_moved (fun group : Except Node (List Lexeme) =>
        (group.map (List.map (Lexeme.moved move))).mapError (Node.moved move)) opener after
        (fun _ _ => rfl) fun _ => rfl
    · rfl

theorem splitTopLevel_length {separator : Category} {lexemes part : List Lexeme}
    (member : part ∈ splitTopLevel lexemes separator) : part.length ≤ lexemes.length := by
  obtain ⟨segment, found, rfl⟩ := List.mem_map.mp member
  exact segmentsAt_length found

namespace Follows

variable {n : Nat} {g h : Grammar} (f : Follows move n g h) (c : h.Consumes)
include f

/-! ## Conditionals and loops -/

include c in
theorem readCondition (keyword : Lexeme) (rest : List Lexeme) (short : rest.length ≤ n) :
    g.readCondition (keyword.moved move) (rest.map (Lexeme.moved move)) =
      (h.readCondition keyword rest).moved (Node.moved move) move := by
  have missing (found : Option Lexeme) : (Node.expected .conditionParen
      (found.map (Lexeme.moved move)) (keyword.moved move).position,
        atBrace (rest.map (Lexeme.moved move))) =
      Parse.moved (Node.moved move) move
        (Node.expected .conditionParen found keyword.position, atBrace rest) := by
    rw [atBrace_moved, Parse.moved_mk, Node.moved_expected, Lexeme.position_moved]
  cases rest with
  | nil => exact missing none
  | cons opener inner =>
    simp only [List.map_cons, Grammar.readCondition, Lexeme.category_moved] at missing ⊢
    split
    · refine readGroup_moved _ opener inner (fun lexemes within => ?_) fun _ => rfl
      have short := Nat.le_of_lt (Nat.lt_trans within short)
      rw [List.isEmpty_map, Lexeme.position_moved, f.readWhole c opener.position lexemes short]
      split <;> rfl
    · exact missing (some opener)

include c in
theorem readClauses (finish : Position) (rest : List Lexeme) (short : rest.length ≤ n) :
    g.readClauses (move finish) (rest.map (Lexeme.moved move)) =
      (h.readClauses finish rest).moved (List.map (Clause.map (Node.moved move))) move := by
  cases rest with
  | nil => rfl
  | cons keyword rest =>
    rw [List.map_cons, Grammar.readClauses, Grammar.readClauses, Lexeme.isSpelled_moved,
      f.readCondition c keyword rest (Nat.le_of_lt short)]
    split
    · have left := (Consumes.readCondition (g := h) keyword rest).length_le
      rcases read : h.readCondition keyword rest with ⟨condition, behind⟩
      rw [read] at left
      have left := Nat.lt_of_le_of_lt left short
      have further := (Consumes.readBlock (g := h) finish behind).length_le
      simp only [Parse.moved_mk, f.readBlock finish behind (Nat.le_of_lt left)]
      rcases readBody : h.readBlock finish behind with ⟨body, after⟩
      rw [readBody] at further
      have clauses := f.clauses finish after (Nat.lt_of_le_of_lt further left)
      rcases readMore : h.clauses finish after with ⟨clauses', last⟩
      rw [readMore] at clauses
      simp only [Parse.moved_mk, clauses, readMore, List.map_cons, Clause.map]
    · rfl

theorem readContinuation (finish : Position) (category : Category) (keyword : String)
    (rest : List Lexeme) (short : rest.length ≤ n) :
    g.readContinuation (move finish) category keyword (rest.map (Lexeme.moved move)) =
      (h.readContinuation finish category keyword rest).moved
        (Option.map (List.map (Node.moved move))) move := by
  cases rest with
  | nil => rfl
  | cons next rest =>
    rw [List.map_cons, Grammar.readContinuation, Grammar.readContinuation,
      Lexeme.isSpelled_moved, f.readBlock finish rest (Nat.le_of_lt short)]
    split <;> rfl

include c in
theorem readConditional (polarity : Polarity) (keyword : Lexeme) (rest : List Lexeme)
    (short : rest.length ≤ n) :
    g.readConditional polarity (keyword.moved move) (rest.map (Lexeme.moved move)) =
      (h.readConditional polarity keyword rest).moved (Node.moved move) move := by
  have afterCondition := (Consumes.readCondition (g := h) keyword rest).length_le
  unfold Grammar.readConditional
  rw [lastPosition_moved, f.readCondition c keyword rest short]
  rcases read : h.readCondition keyword rest with ⟨condition, conditionRest⟩
  rw [read] at afterCondition
  have short := Nat.le_trans afterCondition short
  have afterBody := (Consumes.readBlock (g := h) (lastPosition keyword rest)
    conditionRest).length_le
  simp only [Parse.moved_mk, f.readBlock (lastPosition keyword rest) conditionRest short]
  rcases read : h.readBlock (lastPosition keyword rest) conditionRest with ⟨body, bodyRest⟩
  rw [read] at afterBody
  have short := Nat.le_trans afterBody short
  have afterClauses := (c.readClauses (lastPosition keyword rest) bodyRest).length_le
  simp only [Parse.moved_mk, f.readClauses c (lastPosition keyword rest) bodyRest short]
  rcases read : h.readClauses (lastPosition keyword rest) bodyRest with ⟨clauses, clausesRest⟩
  rw [read] at afterClauses
  simp only [Parse.moved_mk, f.readContinuation (lastPosition keyword rest) .controlKeyword
    "else" clausesRest (Nat.le_trans afterClauses short)]
  simp only [Parse.moved, Node.moved, Node.movedAll_eq_map, Node.movedClauses_eq_map,
    Node.movedBlock_eq_map]

include c in
theorem readWhile (polarity : Polarity) (keyword : Lexeme) (rest : List Lexeme)
    (short : rest.length ≤ n) :
    g.readWhile polarity (keyword.moved move) (rest.map (Lexeme.moved move)) =
      (h.readWhile polarity keyword rest).moved (Node.moved move) move := by
  have left := (Consumes.readCondition (g := h) keyword rest).length_le
  unfold Grammar.readWhile
  rw [lastPosition_moved, f.readCondition c keyword rest short]
  rcases read : h.readCondition keyword rest with ⟨condition, behind⟩
  rw [read] at left
  simp only [Parse.moved_mk,
    f.readBlock (lastPosition keyword rest) behind (Nat.le_trans left short)]
  simp only [Parse.moved, Node.moved, Node.movedAll_eq_map]

include c in
theorem readLoopClause (keyword : Lexeme) (lexemes : List Lexeme) (short : lexemes.length ≤ n) :
    g.readLoopClause (keyword.moved move) (lexemes.map (Lexeme.moved move)) =
      (h.readLoopClause keyword lexemes).map (Node.moved move) := by
  simp only [Grammar.readLoopClause, List.isEmpty_map, nextIs_moved, Lexeme.position_moved,
    f.readWhole c keyword.position lexemes short, foldDeclaration_moved]
  split
  · rfl
  · split <;> rfl

include c in
theorem readFor (keyword : Lexeme) (rest : List Lexeme) (short : rest.length ≤ n) :
    g.readFor (keyword.moved move) (rest.map (Lexeme.moved move)) =
      (h.readFor keyword rest).moved (Node.moved move) move := by
  have declared := (readLoopDeclarator_suffix rest).length_le
  rw [readFor_eq, readFor_eq, lastPosition_moved, readLoopDeclarator_moved]
  rcases read : readLoopDeclarator rest with ⟨declarator, declaredRest⟩
  rw [read] at declared
  have held := (readLoopHolder_suffix declaredRest).length_le
  simp only [Parse.moved_mk, id_eq, readLoopHolder_moved]
  rcases read : readLoopHolder declaredRest with ⟨holder, heldRest⟩
  rw [read] at held
  have grouped := (readLoopGroup_suffix keyword heldRest).length_le
  have inside := @readLoopGroup_length keyword heldRest
  simp only [Parse.moved_mk, readLoopGroup_moved]
  rcases read : readLoopGroup keyword heldRest with ⟨group, groupRest⟩
  rw [read] at grouped
  have short := Nat.le_trans held (Nat.le_trans declared short)
  simp only [Parse.moved_mk,
    f.readBlock (lastPosition keyword rest) groupRest (Nat.le_trans grouped short)]
  rcases h.readBlock (lastPosition keyword rest) groupRest with ⟨body, after⟩
  cases group with
  | error node =>
    simp only [Except.map, Except.mapError, Parse.moved_mk, Node.moved,
      Node.movedOption_eq_map, Node.movedAll_eq_map]
  | ok lexemes =>
    have short := Nat.le_of_lt (Nat.lt_of_lt_of_le (inside read) short)
    simp only [Except.map, Except.mapError, Parse.moved_mk, Option.isNone_map,
      hasTopLevel_moved, splitTopLevel_moved]
    split
    · have clause (part : List Lexeme) (member : part ∈ splitTopLevel lexemes .terminator) :=
        f.readLoopClause c keyword part (Nat.le_trans (splitTopLevel_length member) short)
      rcases parts : splitTopLevel lexemes .terminator with
        _ | ⟨init, _ | ⟨condition, _ | ⟨step, _ | ⟨fourth, more⟩⟩⟩⟩
      · rfl
      · rfl
      · rfl
      · have initial := clause init (by simp [parts])
        have tested := clause condition (by simp [parts])
        have stepped := clause step (by simp [parts])
        simp only [List.map_cons, List.map_nil, initial, tested, stepped, Parse.moved_mk,
          Node.moved, Node.movedOption_eq_map, Node.movedAll_eq_map]
      · rfl
    · rw [List.isEmpty_map, Lexeme.position_moved, f.readWhole c keyword.position lexemes short]
      split <;> simp only [Parse.moved_mk, Node.moved, Node.movedOption_eq_map,
        Node.movedAll_eq_map, Node.moved_list, List.map_nil]

/-! ## Named things -/

include c in
omit f in
/-- A signature and the attributes behind it leave no more than they are given. -/
theorem signature_length {behind paramsRest marksRest : List Lexeme} {params : List Node}
    {marks : List Attribute} (read : h.readParameters behind = (params, paramsRest))
    (marked : h.attributes paramsRest = (marks, marksRest)) :
    marksRest.length ≤ behind.length := by
  have afterParameters := (Consumes.readParameters (g := h) behind).length_le
  have afterMarks := (c.attributes paramsRest).length_le
  rw [read] at afterParameters
  rw [marked] at afterMarks
  exact Nat.le_trans afterMarks afterParameters

include c in
theorem readNamedSub (keyword : Lexeme) (rest : List Lexeme) (short : rest.length ≤ n) :
    g.readNamedSub (keyword.moved move) (rest.map (Lexeme.moved move)) =
      (h.readNamedSub keyword rest).moved (Node.moved move) move := by
  unfold Grammar.readNamedSub
  rw [lastPosition_moved, Lexeme.position_moved, readName_moved]
  cases named : readName .subName keyword.position rest with
  | error node => rfl
  | ok parse =>
    rcases parse with ⟨name, behind⟩
    have short := Nat.le_trans (readName_suffix named).length_le short
    simp only [Except.map, Except.mapError, Parse.moved_mk, id_eq, f.readParameters behind short]
    rcases read : h.readParameters behind with ⟨params, paramsRest⟩
    rcases marked : h.attributes paramsRest with ⟨marks, marksRest⟩
    simp only [Parse.moved_mk, f.attributes, marked]
    have short := Nat.le_trans (signature_length c read marked) short
    simp only [List.isEmpty_map, f.readBlock (lastPosition keyword rest) marksRest short]
    split <;> simp only [Parse.moved, Node.moved, Node.movedAll_eq_map, List.map_nil]

theorem readOptionalBlock (finish : Position) (rest : List Lexeme) (short : rest.length ≤ n) :
    g.readOptionalBlock (move finish) (rest.map (Lexeme.moved move)) =
      (h.readOptionalBlock finish rest).moved (Option.map (List.map (Node.moved move))) move := by
  unfold Grammar.readOptionalBlock
  rw [nextIs_moved, f.readBlock finish rest short]
  split <;> rfl

include c in
theorem readClass (keyword : Lexeme) (rest : List Lexeme) (short : rest.length ≤ n) :
    g.readClass (keyword.moved move) (rest.map (Lexeme.moved move)) =
      (h.readClass keyword rest).moved (Node.moved move) move := by
  unfold Grammar.readClass
  rw [lastPosition_moved, Lexeme.position_moved, readName_moved]
  cases named : readName .className keyword.position rest with
  | error node => rfl
  | ok parse =>
    rcases parse with ⟨name, behind⟩
    have short := Nat.le_trans (readName_suffix named).length_le short
    have afterVersion := (readVersion_suffix behind).length_le
    simp only [Except.map, Except.mapError, Parse.moved_mk, id_eq, readVersion_moved]
    rcases read : readVersion behind with ⟨version, versionRest⟩
    rw [read] at afterVersion
    have short := Nat.le_trans afterVersion short
    have afterMarks := (c.attributes versionRest).length_le
    rcases marked : h.attributes versionRest with ⟨marks, marksRest⟩
    rw [marked] at afterMarks
    simp only [Parse.moved_mk, id_eq, f.attributes, marked]
    simp only [parent_moved,
      f.readOptionalBlock (lastPosition keyword rest) marksRest (Nat.le_trans afterMarks short)]
    simp only [Parse.moved, Node.moved, Node.movedBlock_eq_map]

include c in
theorem readField (keyword : Lexeme) (rest : List Lexeme) (short : rest.length ≤ n) :
    g.readField (keyword.moved move) (rest.map (Lexeme.moved move)) =
      (h.readField keyword rest).moved (Node.moved move) move := by
  cases rest with
  | nil => rfl
  | cons first rest =>
    have left := (c.attributes rest).length_le
    rcases marked : h.attributes rest with ⟨marks, behind⟩
    rw [marked] at left
    unfold Grammar.readField
    simp only [List.map_cons, List.head?_cons, Option.bind_some, Lexeme.asVar?_moved,
      List.tail_cons, f.attributes, marked]
    cases spelled : first.asVar? with
    | none => rfl
    | some holder =>
      have same : holder.moved move = holder := Lexeme.moved_of_asVar? spelled
      have texts (marks : List Attribute) :
          (marks.map (Attribute.moved move)).map Attribute.text = marks.map Attribute.text := by
        rw [List.map_map]
        exact List.map_congr_left fun mark _ => Attribute.text_moved mark
      rcases behind with _ | ⟨op, value⟩
      · simp only [Parse.moved_mk, List.map_nil, texts, Node.moved, same,
          Node.movedOption_eq_map, Option.map_none]
      · have short := Nat.le_of_lt (Nat.lt_of_lt_of_le left (Nat.le_of_lt short))
        simp only [Parse.moved_mk, List.map_cons, texts, Lexeme.isDefaultOperator_moved,
          List.isEmpty_map, Lexeme.position_moved, f.readWhole c op.position value short]
        split
        · split <;> simp only [List.map_nil, Node.moved, same, Node.movedOption_eq_map,
            Option.map_some, Lexeme.missingOperand_moved]
        · simp only [List.map_cons, Node.moved, same, Node.movedOption_eq_map, Option.map_none]

include c in
theorem readMethodDecl (keyword : Lexeme) (rest : List Lexeme) (short : rest.length ≤ n) :
    g.readMethodDecl (keyword.moved move) (rest.map (Lexeme.moved move)) =
      (h.readMethodDecl keyword rest).moved (Node.moved move) move := by
  unfold Grammar.readMethodDecl
  rw [lastPosition_moved, Lexeme.position_moved, readName_moved]
  cases named : readName .methodName keyword.position rest with
  | error node => rfl
  | ok parse =>
    rcases parse with ⟨name, behind⟩
    have short := Nat.le_trans (readName_suffix named).length_le short
    simp only [Except.map, Except.mapError, Parse.moved_mk, id_eq, f.readParameters behind short]
    rcases read : h.readParameters behind with ⟨params, paramsRest⟩
    rcases marked : h.attributes paramsRest with ⟨marks, marksRest⟩
    simp only [Parse.moved_mk, f.attributes, marked]
    have short := Nat.le_trans (signature_length c read marked) short
    simp only [f.readBlock (lastPosition keyword rest) marksRest short]
    simp only [Parse.moved, Node.moved, Node.movedAll_eq_map]

theorem readPackage (keyword : Lexeme) (rest : List Lexeme) (short : rest.length ≤ n) :
    g.readPackage (keyword.moved move) (rest.map (Lexeme.moved move)) =
      (h.readPackage keyword rest).moved (Node.moved move) move := by
  unfold Grammar.readPackage
  rw [lastPosition_moved, Lexeme.position_moved, readName_moved]
  cases named : readName .packageName keyword.position rest with
  | error node => rfl
  | ok parse =>
    rcases parse with ⟨name, behind⟩
    have short := Nat.le_trans (readName_suffix named).length_le short
    have afterVersion := (readVersion_suffix behind).length_le
    simp only [Except.map, Except.mapError, Parse.moved_mk, id_eq, readVersion_moved]
    rcases read : readVersion behind with ⟨version, versionRest⟩
    rw [read] at afterVersion
    simp only [Parse.moved_mk, id_eq, f.readOptionalBlock (lastPosition keyword rest) versionRest
      (Nat.le_trans afterVersion short)]
    simp only [Parse.moved, Node.moved, Node.movedBlock_eq_map]

include c in
theorem readUse (negated : Bool) (keyword : Lexeme) (rest : List Lexeme)
    (short : rest.length ≤ n) :
    g.readUse negated (keyword.moved move) (rest.map (Lexeme.moved move)) =
      (h.readUse negated keyword rest).moved (Node.moved move) move := by
  have afterVersion := (readVersion_suffix rest).length_le
  unfold Grammar.readUse
  rw [readVersion_moved, Lexeme.position_moved]
  rcases read : readVersion rest with ⟨_ | version, versionRest⟩
  · rw [read] at afterVersion
    simp only [Parse.moved_mk, id_eq, readName_moved]
    cases named : readName .moduleName keyword.position versionRest with
    | error node => rfl
    | ok parse =>
      rcases parse with ⟨name, behind⟩
      have short := Nat.le_trans (readName_suffix named).length_le
        (Nat.le_trans afterVersion short)
      simp only [Except.map, Except.mapError, Parse.moved_mk, id_eq, ← List.map_tail,
        nextIs_moved, readVersion_moved]
      split
      · simp only [List.isEmpty_map, f.readWhole c keyword.position behind short,
          importsOf_moved]
        split <;> simp only [Node.moved, Node.movedAll_eq_map, List.map_nil]
      · have afterVersion := (readVersion_suffix behind).length_le
        rcases read : readVersion behind with ⟨version, importRest⟩
        rw [read] at afterVersion
        simp only [Parse.moved_mk, id_eq, List.isEmpty_map, importsOf_moved,
          f.readWhole c keyword.position importRest (Nat.le_trans afterVersion short)]
        split <;> simp only [Node.moved, Node.movedAll_eq_map, List.map_nil]
  · rfl

/-! ## Blocks with a head -/

theorem readHandler (finish : Position) (rest : List Lexeme) (short : rest.length ≤ n) :
    g.readHandler (move finish) (rest.map (Lexeme.moved move)) =
      (h.readHandler finish rest).moved (Option.map (Handler.map (Node.moved move))) move := by
  rcases rest with _ | ⟨keyword, _ | ⟨opener, after⟩⟩
  · rfl
  · simp only [List.map_cons, List.map_nil, Grammar.readHandler, Lexeme.isSpelled_moved]
    split <;> rfl
  · have group : readGroup (opener.moved move) (after.map (Lexeme.moved move))
        (fun lexemes => some (handlerVariable (opener.moved move) lexemes))
        (fun fault => some (.error fault)) =
          (readGroup opener after (fun lexemes => some (handlerVariable opener lexemes))
            fun fault => some (.error fault)).moved (Option.map (Node.moved move)) move :=
      readGroup_moved (Option.map _) opener after
        (fun lexemes _ => congrArg some (handlerVariable_moved opener lexemes)) fun _ => rfl
    have left := (readGroup_suffix opener after
      (fun lexemes => some (handlerVariable opener lexemes))
      fun fault => some (Node.error fault)).length_le
    simp only [List.length_cons] at short
    simp only [List.map_cons, Grammar.readHandler, Lexeme.isSpelled_moved,
      Lexeme.category_moved, group]
    split
    · split
      · rcases read : readGroup opener after
          (fun lexemes => some (handlerVariable opener lexemes))
          (fun fault => some (.error fault)) with ⟨holder, behind⟩
        rw [read] at left
        have shorter : behind.length ≤ n := Nat.le_trans left (by omega)
        simp only [Parse.moved_mk, f.readBlock finish behind shorter]
        simp only [Parse.moved, Option.map_some, Handler.map]
      · have body := f.readBlock finish (opener :: after) (by rw [List.length_cons]; omega)
        rw [List.map_cons] at body
        simp only [body, Parse.moved, Option.map_some, Option.map_none, Handler.map]
    · rfl

theorem readTry (keyword : Lexeme) (rest : List Lexeme) (short : rest.length ≤ n) :
    g.readTry (keyword.moved move) (rest.map (Lexeme.moved move)) =
      (h.readTry keyword rest).moved (Node.moved move) move := by
  have afterBody := (Consumes.readBlock (g := h) (lastPosition keyword rest) rest).length_le
  unfold Grammar.readTry
  simp only [lastPosition_moved, f.readBlock (lastPosition keyword rest) rest short]
  rcases read : h.readBlock (lastPosition keyword rest) rest with ⟨body, bodyRest⟩
  rw [read] at afterBody
  have short := Nat.le_trans afterBody short
  have afterHandler := (readHandler_suffix h (lastPosition keyword rest) bodyRest).length_le
  simp only [Parse.moved_mk, f.readHandler (lastPosition keyword rest) bodyRest short]
  rcases read : h.readHandler (lastPosition keyword rest) bodyRest with ⟨handler, handlerRest⟩
  rw [read] at afterHandler
  simp only [Parse.moved_mk, f.readContinuation (lastPosition keyword rest) .keyword "finally"
    handlerRest (Nat.le_trans afterHandler short)]
  simp only [Parse.moved, Node.moved, Node.movedAll_eq_map, Node.movedHandler_eq_map,
    Node.movedBlock_eq_map]

include c in
theorem readTopic (topic : Topic) (keyword : Lexeme) (rest : List Lexeme)
    (short : rest.length ≤ n) :
    g.readTopic topic (keyword.moved move) (rest.map (Lexeme.moved move)) =
      (h.readTopic topic keyword rest).moved (Node.moved move) move := by
  have left := (Consumes.readCondition (g := h) keyword rest).length_le
  unfold Grammar.readTopic
  rw [lastPosition_moved, f.readCondition c keyword rest short]
  rcases read : h.readCondition keyword rest with ⟨head, behind⟩
  rw [read] at left
  simp only [Parse.moved_mk,
    f.readBlock (lastPosition keyword rest) behind (Nat.le_trans left short)]
  simp only [Parse.moved, Node.moved, Node.movedAll_eq_map]

theorem readPhaseBlock (phase : Lexeme) (rest : List Lexeme) (short : rest.length ≤ n) :
    g.readPhaseBlock (phase.moved move) (rest.map (Lexeme.moved move)) =
      (h.readPhaseBlock phase rest).moved (Node.moved move) move := by
  unfold Grammar.readPhaseBlock
  rw [lastPosition_moved, Lexeme.text_moved, f.readBlock (lastPosition phase rest) rest short]
  simp only [Parse.moved, Node.moved, Node.movedAll_eq_map, List.map_nil]

/-! ## Dispatch -/

include c in
theorem readControl (keyword : Lexeme) (rest : List Lexeme) (short : rest.length ≤ n) :
    g.readControl (keyword.moved move) (rest.map (Lexeme.moved move)) =
      (h.readControl keyword rest).moved move := by
  unfold Grammar.readControl
  simp only [Lexeme.text_moved, f.readConditional c _ keyword rest short,
    f.readWhile c _ keyword rest short, f.readFor c keyword rest short, Node.finish_moved,
    dangling_moved]
  split <;> rfl

include c in
theorem readReserved (keyword : Lexeme) (rest : List Lexeme) (short : rest.length < n) :
    g.readReserved (keyword.moved move) (rest.map (Lexeme.moved move)) =
      (h.readReserved keyword rest).moved move := by
  have whole := f.readWhole c keyword.position (keyword :: rest) short
  have short := Nat.le_of_lt short
  rw [List.map_cons] at whole
  unfold Grammar.readReserved
  rw [head?_any_moved Lexeme.isWord_moved]
  simp only [Lexeme.text_moved, Lexeme.position_moved, lastPosition_moved,
    f.readNamedSub c keyword rest short, f.readClass c keyword rest short,
    f.readField c keyword rest short, f.readMethodDecl c keyword rest short,
    f.readPackage keyword rest short, f.readUse c _ keyword rest short,
    f.readTry keyword rest short, f.readTopic c _ keyword rest short,
    f.readBlock (lastPosition keyword rest) rest short, Node.finish_moved, dangling_moved, whole]
  split
  · split <;> rfl
  · rfl
  · rfl
  · rfl
  · rfl
  · rfl
  · rfl
  · rfl
  · rfl
  · rfl
  · rfl
  · rfl
  · rfl
  · rfl
  · rw [← Node.finish_moved]
    simp only [Parse.moved, Node.moved, Node.movedAll_eq_map]
  · rfl

include c in
theorem readSimple (head : Lexeme) (rest : List Lexeme) (short : rest.length < n) :
    g.readSimple (head.moved move) (rest.map (Lexeme.moved move)) =
      (h.readSimple head rest).moved move := by
  have whole := f.readWhole c head.position (head :: rest) short
  have block := f.readBlock (lastPosition head rest) (head :: rest) short
  rw [List.map_cons] at whole block
  unfold Grammar.readSimple
  simp only [Lexeme.category_moved, Lexeme.text_moved, Lexeme.position_moved, nextIs_moved,
    lastPosition_moved, f.readControl c head rest (Nat.le_of_lt short),
    f.readReserved c head rest short, f.readPhaseBlock head rest (Nat.le_of_lt short), whole,
    block, Node.finish_moved, foldDeclaration_moved]
  split
  · rfl
  · rfl
  · rw [← Node.finish_moved]
    simp only [Parse.moved, Node.moved, Node.movedAll_eq_map]
  · split <;> rfl
  · rfl
  · rfl

include c in
theorem readModified (head : Lexeme) (rest : List Lexeme) (short : rest.length < n) :
    g.readModified (head.moved move) (rest.map (Lexeme.moved move)) =
      (h.readModified head rest).moved move := by
  unfold Grammar.readModified
  rw [Lexeme.category_moved, f.readSimple c head rest short, ← List.map_cons,
    cutAtTopLevel?_moved Lexeme.isModifier_moved]
  split
  · rfl
  · cases found : cutAtTopLevel? Lexeme.isModifier 0 (head :: rest) with
    | none => rfl
    | some cut =>
      have parts := congrArg List.length (cutAtTopLevel?_whole found)
      rcases cut with ⟨_ | ⟨first, before⟩, keyword, after⟩
      · rfl
      · simp only [Cut.whole, List.length_append, List.length_cons] at parts
        have condition := f.readWhole c keyword.position after (by omega)
        have body := f.readSimple c first before (by omega)
        simp only [Option.map_some, Cut.moved, List.map_cons, List.isEmpty_map,
          Lexeme.position_moved, Lexeme.text_moved, condition, body]
        rw [← modified_moved, List.map_cons, List.map_nil]
        split <;> rfl

include c in
theorem readStatement (lexemes : List Lexeme) (short : lexemes.length ≤ n) :
    g.readStatement (lexemes.map (Lexeme.moved move)) =
      (h.readStatement lexemes).map (Node.moved move) := by
  have short := Nat.le_trans (withoutTerminator_length lexemes) short
  unfold Grammar.readStatement
  rw [withoutTerminator_moved]
  rcases same : withoutTerminator lexemes with _ | ⟨head, _ | ⟨colon, rest⟩⟩
  · rfl
  · rw [same] at short
    exact congrArg some (f.readModified c head [] short)
  · rw [same] at short
    have unlabelled := f.readModified c head (colon :: rest) short
    simp only [List.map_cons] at unlabelled
    simp only [List.map_cons, Lexeme.category_moved, Lexeme.text_moved, Lexeme.position_moved,
      unlabelled]
    split
    · cases rest with
      | nil => rfl
      | cons first rest =>
        have shorter : rest.length < n := by
          simp only [List.length_cons] at short
          omega
        simp only [List.map_cons, f.readModified c first rest shorter, Option.map_some,
          Node.moved_labelled]
    · rfl

include c in
theorem readStatements (lexemes : List Lexeme) (short : lexemes.length ≤ n) :
    g.readStatements (lexemes.map (Lexeme.moved move)) =
      (h.readStatements lexemes).map (Node.moved move) := by
  simp only [Grammar.readStatements, splitStatements_moved, List.filterMap_map,
    List.map_filterMap]
  exact List.filterMap_congr fun part member =>
    f.readStatement c part (Nat.le_trans (splitStatements_length member) short)

include c in
/-- One step of a grammar that follows another follows one step of the other, on lists that are
one lexeme longer. -/
theorem step : Follows move (n + 1) g.step h.step where
  whole anchor lexemes short := f.readWhole c anchor lexemes (Nat.le_of_lt_succ short)
  operation level lexeme rest short :=
    f.readOperation c level lexeme rest (Nat.le_of_lt_succ short)
  climb level node rest short := f.readClimb c level node rest (Nat.le_of_lt_succ short)
  operand lexeme rest short := f.readOperand c lexeme rest (Nat.le_of_lt_succ short)
  primary lexeme rest short := f.readPrimary c lexeme rest (Nat.le_of_lt_succ short)
  chain node rest short := f.readChain node rest (Nat.le_of_lt_succ short)
  items rest short := f.readItems c rest (Nat.le_of_lt_succ short)
  arguments rest short := f.readArguments c rest (Nat.le_of_lt_succ short)
  attributes := f.attributes
  clauses finish rest short := f.readClauses c finish rest (Nat.le_of_lt_succ short)
  statements lexemes short := f.readStatements c lexemes (Nat.le_of_lt_succ short)

end Follows

/-- A level follows every level that is at least as high, on the lists that it reads. -/
theorem follows_level (move : Position → Position) {low high : Nat} (le : low ≤ high) :
    Follows move low (level low) (level high) := by
  induction low generalizing high with
  | zero =>
    constructor <;> intros <;> try contradiction
    rw [attributes_level, attributes_level, readAttributes_moved]
  | succ low ih =>
    obtain ⟨high, rfl⟩ : ∃ lower, high = lower + 1 := ⟨high - 1, by omega⟩
    exact (ih (Nat.le_of_succ_le_succ le)).step (consumes_level high)

end Grammar

end SigilScript
