import SigilScript.Proofs.Collector
import SigilScript.Proofs.Grammar.Shape
import SigilScript.Proofs.Layout.Expression

/-! # The layout of statements

What each production of a statement reads is laid over its lexemes, and so is what the complete
grammar reads. The trees of a program are laid over all of its lexemes.
-/

namespace SigilScript

namespace Laid

variable {nodes : List Node} {lexemes left : List Lexeme}

/-- A declaration may take up its initializer. -/
theorem foldDeclaration {tree : Node} (laid : Laid .phrase [tree] lexemes left) :
    Laid .phrase [Grammar.foldDeclaration tree] lexemes left := by
  simp only [Grammar.foldDeclaration]
  split
  · next declarator targets value =>
    have operands : Laid .phrase ([] ++ .declaration declarator targets none :: [value]) lexemes
        left := laid.parts rfl
    have parts := operands.expand rfl
    rw [List.nil_append, Node.children, Option.toList_none, List.append_nil] at parts
    exact .node trivial parts
  · exact laid

theorem importsOf {tree : Node} (laid : Laid .phrase [tree] lexemes left) :
    Laid .phrase (Grammar.importsOf tree) lexemes left := by
  simp only [Grammar.importsOf]
  split
  · exact laid.parts rfl
  · exact laid

theorem loopDeclarator (rest : List Lexeme) :
    Laid .phrase [] rest (Grammar.readLoopDeclarator rest).2 := by
  rcases rest with _ | ⟨next, rest⟩
  · exact .refl []
  · simp only [Grammar.readLoopDeclarator]
    split
    · next role => exact .plain (Lexeme.plain_of_role role rfl rfl)
    · exact .refl _

theorem loopHolder (rest : List Lexeme) :
    Laid .phrase (Grammar.readLoopHolder rest).1.toList rest (Grammar.readLoopHolder rest).2 := by
  rcases rest with _ | ⟨first, rest⟩
  · exact .refl []
  · simp only [Grammar.readLoopHolder, List.head?_cons, Option.bind_some, List.tail_cons]
    split
    · next holder spelled => exact asVar? spelled
    · exact .refl _

/-- What stands in front of the parentheses of a loop. -/
theorem loopBegun {keyword : Lexeme} (plain : keyword.Plain) {declarator : Option String}
    {holder : Option Node} {rest declaredRest heldRest : List Lexeme}
    (declared : Grammar.readLoopDeclarator rest = (declarator, declaredRest))
    (held : Grammar.readLoopHolder declaredRest = (holder, heldRest)) :
    Laid .phrase holder.toList (keyword :: rest) heldRest := by
  have first := loopDeclarator rest
  have second := loopHolder declaredRest
  rw [declared] at first
  rw [held] at second
  exact .skip_head plain (.trans first second)

/-- The parentheses of a loop, or the fault in their place. -/
theorem loopGroup {keyword : Lexeme} {rest after : List Lexeme} {group : Except Node (List Lexeme)}
    (read : Grammar.readLoopGroup keyword rest = (group, after)) :
    (∃ opener inner closer, group = .ok inner ∧ rest = opener :: (inner ++ closer :: after) ∧
      opener.category = .leftParen ∧ opener.category.closer? = some closer.category) ∨
    ∃ tree, group = .error tree ∧ tree.isError = true ∧
      ∀ front, Laid .phrase [tree] (keyword :: (front ++ rest)) after := by
  cases group with
  | ok inner =>
    obtain ⟨opener, behind, rfl, opens, taken⟩ := Grammar.readLoopGroup_of_ok read
    obtain ⟨closer, partner, rfl⟩ := takeGroup_ok taken
    exact .inl ⟨opener, inner, closer, rfl, rfl, opens, partner⟩
  | error tree =>
    refine .inr ⟨tree, rfl, ?_⟩
    rcases Grammar.readLoopGroup_of_error read with
      ⟨rfl, rfl⟩ | ⟨opener, behind, ⟨cause, position⟩, rfl, opens, taken, rfl⟩
    · rcases after with _ | ⟨next, after⟩
      · exact ⟨rfl, fun front => .fault [] List.nil_suffix⟩
      · exact ⟨rfl, fun front => .fault (keyword :: front) (List.suffix_refl _)⟩
    · obtain ⟨place, -⟩ := takeGroup_error taken
      obtain ⟨-, rfl⟩ := takeGroup_open opens taken
      obtain rfl : position = opener.position := place
      exact ⟨rfl, fun front => .fault (keyword :: front) List.nil_suffix⟩

/-- A declarator is read in the head of its loop. -/
theorem loopHead {keyword opener : Lexeme} {rest between after : List Lexeme}
    {declarator : String} {holder : Option Node} (begins : keyword.BeginsLoop)
    (declared : Grammar.readLoopDeclarator rest = (some declarator, between))
    (held : Grammar.readLoopHolder between = (holder, opener :: after))
    (opens : opener.category = .leftParen) : LoopHead declarator holder (keyword :: rest) := by
  rcases rest with _ | ⟨word, rest⟩
  · simp [Grammar.readLoopDeclarator] at declared
  · by_cases declares : word.category = .declarator
    · simp only [Grammar.readLoopDeclarator, declares, ↓reduceIte, Prod.mk.injEq,
        Option.some.injEq] at declared
      obtain ⟨spelled, rfl⟩ := declared
      rcases rest with _ | ⟨next, rest⟩
      · simp [Grammar.readLoopHolder] at held
      · rcases named : next.asVar? with _ | tree
        · simp only [Grammar.readLoopHolder, List.head?_cons, Option.bind_some, named,
            Prod.mk.injEq, List.cons.injEq] at held
          obtain ⟨rfl, rfl, rfl⟩ := held
          exact .intro begins declares spelled named.symm fun _ => opens
        · simp only [Grammar.readLoopHolder, List.head?_cons, Option.bind_some, named,
            Prod.mk.injEq] at held
          obtain ⟨rfl, -⟩ := held
          exact .intro begins declares spelled named.symm fun nothing =>
            absurd nothing (Option.some_ne_none tree)
    · simp [Grammar.readLoopDeclarator, declares] at declared

/-- The variable of a loop stands for no lexeme where its parentheses are missing. -/
theorem holder_nowhere (rest lexemes : List Lexeme) :
    Laid .phrase (Grammar.readLoopHolder rest).1.toList lexemes lexemes := by
  simp only [Grammar.readLoopHolder]
  split
  · next holder spelled =>
    obtain ⟨first, -, spelled⟩ := Option.bind_eq_some_iff.mp spelled
    simp only [Lexeme.asVar?, Node.ofSpelling] at spelled
    split at spelled
    · obtain rfl := Option.some.inj spelled
      split <;> exact .node trivial (.refl _)
    · contradiction
  · exact .refl _

theorem readName_error {keyword : Lexeme} {rest : List Lexeme} {wanted : Construct} {tree : Node}
    (read : readName wanted keyword.position rest = .error tree) :
    Laid .phrase [tree] (keyword :: rest) rest := by
  obtain rfl := readName_of_error read
  rcases rest with _ | ⟨word, rest⟩
  · exact .fault_head List.nil_suffix
  · exact .fault [keyword] (List.suffix_refl _)

end Laid

/-- A version, if one follows, names a thing. -/
theorem readVersion_names (rest : List Lexeme) : ∃ names : List Lexeme, names.length ≤ 1 ∧
    (∀ name ∈ names, name.Names) ∧ rest = names ++ (readVersion rest).2 := by
  rcases rest with _ | ⟨version, rest⟩
  · exact ⟨[], by simp, by simp, rfl⟩
  · simp only [readVersion]
    split
    · next number => exact ⟨[version], by simp, by simp [Lexeme.Names, number], rfl⟩
    · exact ⟨[], by simp, by simp, rfl⟩

theorem Laid.readVersion (rest : List Lexeme) : Laid .phrase [] rest (readVersion rest).2 := by
  obtain ⟨names, -, named, same⟩ := readVersion_names rest
  have laid := (Laid.names named).all_before (SigilScript.readVersion rest).2
  rwa [← same] at laid

theorem readVersion_none {rest after : List Lexeme} (read : readVersion rest = (none, after)) :
    after = rest := by
  rcases rest with _ | ⟨version, rest⟩
  · exact (Prod.mk.inj read).2.symm
  · simp only [readVersion] at read
    split at read
    · simp at read
    · exact (Prod.mk.inj read).2.symm

namespace Grammar

namespace Lays

variable {n : Nat} {g : Grammar} (c : g.Consumes) (lays : g.Lays n)
include lays

/-! ## Conditionals and loops -/

include c in
theorem readCondition {keyword : Lexeme} (plain : keyword.Plain) (rest : List Lexeme)
    (short : rest.length ≤ n) :
    Laid .phrase [(g.readCondition keyword rest).1] (keyword :: rest)
      (g.readCondition keyword rest).2 := by
  rcases rest with _ | ⟨opener, inner⟩
  · exact .fault_head List.nil_suffix
  · simp only [Grammar.readCondition]
    split
    · refine .skip_head plain (Laid.readGroup (fun tree => [tree])
        (fun inner _ left within partner => ?_) fun _ => rfl)
      split
      · exact .fault_group inner
      · next filled =>
        exact .group partner (lays.readWhole c _ inner (Nat.le_of_lt (Nat.lt_trans within short))
          fun empty => filled (by rw [empty]; rfl))
    · exact .fault [keyword] (atBrace_suffix (opener :: inner))

include c in
/-- A keyword with its condition and its block, behind what was read. -/
theorem conditioned {finish : Position} {keyword : Lexeme} {rest : List Lexeme}
    (plain : keyword.Plain) (short : rest.length ≤ n) {nodes : List Node} {lexemes : List Lexeme}
    (ends : EndsAt finish lexemes) (laid : Laid .phrase nodes lexemes (keyword :: rest)) :
    Laid .phrase (nodes ++ (g.readCondition keyword rest).1 ::
        (g.readBlock finish (g.readCondition keyword rest).2).1) lexemes
      (g.readBlock finish (g.readCondition keyword rest).2).2 := by
  have condition := Laid.trans laid (lays.readCondition c plain rest short)
  have suffix := Consumes.readCondition (g := g) keyword rest
  have body := lays.readBlock (Nat.le_trans suffix.length_le short) ends condition
  rwa [List.append_assoc] at body

include c in
theorem readClauses {finish : Position} {rest : List Lexeme} (short : rest.length ≤ n)
    {nodes : List Node} {lexemes : List Lexeme} (ends : EndsAt finish lexemes)
    (laid : Laid .phrase nodes lexemes rest) :
    Laid .phrase (nodes ++ (g.readClauses finish rest).1.flatMap Node.clauseParts) lexemes
      (g.readClauses finish rest).2 := by
  rcases rest with _ | ⟨keyword, rest⟩
  · rwa [Grammar.readClauses, List.flatMap_nil, List.append_nil]
  · simp only [Grammar.readClauses]
    split
    · next spelled =>
      have suffix := (Consumes.readBlock (g := g) finish _).trans
        (Consumes.readCondition (g := g) keyword rest)
      have first := lays.conditioned c (Lexeme.plain_of_spelled spelled rfl rfl)
        (Nat.le_of_lt short) ends laid
      have further := lays.clauses finish _ _ _ (Nat.lt_of_le_of_lt suffix.length_le short) ends
        first
      rwa [List.append_assoc] at further
    · rwa [List.flatMap_nil, List.append_nil]

theorem readContinuation {finish : Position} {category : Category}
    (opens : category.isOpener = false) (closes : category.isCloser = false) (keyword : String)
    {rest : List Lexeme} (short : rest.length ≤ n) {nodes : List Node} {lexemes : List Lexeme}
    (ends : EndsAt finish lexemes) (laid : Laid .phrase nodes lexemes rest) :
    Laid .phrase (nodes ++ (g.readContinuation finish category keyword rest).1.getD []) lexemes
      (g.readContinuation finish category keyword rest).2 := by
  rcases rest with _ | ⟨next, rest⟩
  · rwa [Grammar.readContinuation, Option.getD_none, List.append_nil]
  · simp only [Grammar.readContinuation]
    split
    · next spelled =>
      exact lays.readBlock (Nat.le_of_lt short) ends
        (laid.skip (Lexeme.plain_of_spelled spelled opens closes))
    · rwa [Option.getD_none, List.append_nil]

include c in
theorem readConditional (polarity : Polarity) {keyword : Lexeme} (plain : keyword.Plain)
    (rest : List Lexeme) (short : rest.length ≤ n) :
    Laid .phrase [(g.readConditional polarity keyword rest).1] (keyword :: rest)
      (g.readConditional polarity keyword rest).2 := by
  have ends := endsAt_lastPosition keyword rest
  have suffix := (Consumes.readBlock (g := g) (lastPosition keyword rest) _).trans
    (Consumes.readCondition (g := g) keyword rest)
  have first := lays.conditioned c plain short ends (.refl _)
  have clauses := lays.readClauses c (Nat.le_trans suffix.length_le short) ends first
  have suffix' := (c.readClauses (lastPosition keyword rest) _).trans suffix
  exact .node trivial (lays.readContinuation rfl rfl "else" (Nat.le_trans suffix'.length_le short) ends
    clauses)

include c in
theorem readWhile (polarity : Polarity) {keyword : Lexeme} (plain : keyword.Plain)
    (rest : List Lexeme) (short : rest.length ≤ n) :
    Laid .phrase [(g.readWhile polarity keyword rest).1] (keyword :: rest)
      (g.readWhile polarity keyword rest).2 :=
  .node trivial (lays.conditioned c plain short (endsAt_lastPosition keyword rest) (.refl _))

include c in
theorem readTopic (topic : Topic) {keyword : Lexeme} (plain : keyword.Plain)
    (rest : List Lexeme) (short : rest.length ≤ n) :
    Laid .phrase [(g.readTopic topic keyword rest).1] (keyword :: rest)
      (g.readTopic topic keyword rest).2 :=
  .node trivial (lays.conditioned c plain short (endsAt_lastPosition keyword rest) (.refl _))

include c in
theorem readLoopClause {keyword : Lexeme} (lexemes : List Lexeme) (short : lexemes.length ≤ n) :
    Laid .phrase (g.readLoopClause keyword lexemes).toList lexemes [] := by
  simp only [Grammar.readLoopClause]
  split
  · next empty =>
    rw [List.isEmpty_iff.mp empty]
    exact .refl []
  · next filled =>
    have clause := lays.readWhole c keyword.position lexemes short
      fun empty => filled (by rw [empty]; rfl)
    rw [Option.toList_some]
    split
    · exact clause.foldDeclaration
    · exact clause

include c in
/-- The clauses of a counting loop, from the inside of its parentheses. -/
theorem loopClauses (keyword : Lexeme) {lexemes init condition step : List Lexeme}
    (short : lexemes.length ≤ n)
    (split : splitTopLevel lexemes .terminator = [init, condition, step]) :
    Laid .phrase ((g.readLoopClause keyword init).toList ++
      (g.readLoopClause keyword condition).toList ++ (g.readLoopClause keyword step).toList)
      lexemes [] := by
  have clauses : Laid .phrase ((segmentsAt .terminator lexemes).flatMap fun segment =>
      (g.readLoopClause keyword segment.lexemes).toList) lexemes [] :=
    Laid.segments rfl rfl fun segment member =>
      lays.readLoopClause c _ (Nat.le_trans (segmentsAt_length member) short)
  have same : (segmentsAt .terminator lexemes).flatMap (fun segment =>
      (g.readLoopClause keyword segment.lexemes).toList) =
        (splitTopLevel lexemes .terminator).flatMap fun segment =>
          (g.readLoopClause keyword segment).toList := by
    rw [splitTopLevel, List.flatMap_map]
  rw [same, split] at clauses
  simpa using clauses

include c in
/-- The list of a loop, from the inside of its parentheses. -/
theorem loopIterable (keyword : Lexeme) {lexemes : List Lexeme} (short : lexemes.length < n) :
    Laid .phrase [if lexemes.isEmpty then .list [] else g.readWhole keyword.position lexemes]
      lexemes [] := by
  split
  · next empty =>
    rw [List.isEmpty_iff.mp empty]
    exact .node trivial (.refl [])
  · next filled =>
    exact lays.readWhole c _ _ (Nat.le_of_lt short) fun empty => filled (by rw [empty]; rfl)

include c in
theorem readFor {keyword : Lexeme} (begins : keyword.BeginsLoop) (rest : List Lexeme)
    (short : rest.length ≤ n) :
    Laid .phrase [(g.readFor keyword rest).1] (keyword :: rest) (g.readFor keyword rest).2 := by
  have plain : keyword.Plain := Lexeme.plain_of_role begins.1 rfl rfl
  rw [readFor_eq]
  rcases declared : readLoopDeclarator rest with ⟨declarator, declaredRest⟩
  dsimp only
  rcases held : readLoopHolder declaredRest with ⟨holder, heldRest⟩
  dsimp only
  rcases grouped : readLoopGroup keyword heldRest with ⟨group, groupRest⟩
  dsimp only
  have ends := endsAt_lastPosition keyword rest
  have looped := Laid.loopBegun plain declared held
  have suffix : heldRest <:+ rest := by
    have suffix := readLoopHead_suffix rest
    rwa [declared, held] at suffix
  have after : groupRest <:+ rest := by
    have third := readLoopGroup_suffix keyword heldRest
    rw [grouped] at third
    exact third.trans suffix
  have below : groupRest.length ≤ n := Nat.le_trans after.length_le short
  rcases Laid.loopGroup grouped with
    ⟨opener, inner, closer, rfl, same, opens, partner⟩ | ⟨tree, rfl, fault, laid⟩
  · have within : inner.length < n := by
      have shorter := suffix.length_le
      simp only [same, List.length_cons, List.length_append] at shorter
      omega
    rw [same] at looped held
    dsimp only
    split
    · next counting =>
      simp only [Bool.and_eq_true, Option.isNone_iff_eq_none] at counting
      obtain rfl : holder = none := counting.1.2
      split
      · next init condition step clauses =>
        have head := Laid.trans looped
          (.group partner (lays.loopClauses c keyword (Nat.le_of_lt within) clauses))
        exact .node trivial (lays.readBlock below ends head)
      · have behind := Consumes.readBlock (g := g) (lastPosition keyword rest) groupRest
        exact .fault_head (behind.trans (after.trans (List.suffix_cons ..)))
    · have head := Laid.trans looped (.group partner (lays.loopIterable c keyword within))
      have parts := lays.readBlock below ends head
      rw [List.append_assoc] at parts
      refine .node ?_ parts
      cases declarator with
      | none => trivial
      | some declarator => exact .inr (Laid.loopHead begins declared held opens)
  · obtain ⟨front, rfl⟩ := suffix
    have nowhere : Laid .phrase holder.toList (keyword :: (front ++ heldRest))
        (keyword :: (front ++ heldRest)) := by
      have nowhere := Laid.holder_nowhere declaredRest (keyword :: (front ++ heldRest))
      rwa [held] at nowhere
    have parts := lays.readBlock below ends (.trans nowhere (laid front))
    rw [List.append_assoc] at parts
    refine .node ?_ parts
    cases declarator with
    | none => trivial
    | some _ => exact .inl fault

/-! ## Named things -/

omit lays in
/-- A declaration that ends with what it lost. -/
theorem ended {tree : Node} {nodes : List Node} {lexemes : List Lexeme}
    (ends : EndsLost nodes lexemes) (entangled : tree.sequential = false)
    (reads : ∀ lexemes, tree.ReadFrom lexemes) (parts : tree.children = nodes) :
    Laid .statement [tree] lexemes [] := by
  obtain ⟨intro, marks, lost, introduction, laid, run, final, rfl⟩ := ends
  subst parts
  exact .lost introduction entangled (reads _) laid run final

theorem readNamedSub {keyword : Lexeme} (declares : keyword.Declares) (rest : List Lexeme)
    (short : rest.length ≤ n) :
    Laid .statement [.finish (g.readNamedSub keyword rest)] (keyword :: rest) [] := by
  simp only [Grammar.readNamedSub, lays.attributes]
  split
  · next tree named => exact .phrase (Laid.finish (Laid.readName_error named))
  · next name behind named =>
    obtain ⟨word, isWord, rfl⟩ := readName_of_ok named
    have below : behind.length ≤ n := Nat.le_of_lt short
    have signature := lays.readSignature [word] declares (by simp)
      (List.forall_mem_singleton.mpr (.inl isWord)) below
    have suffix := (readAttributes_suffix _).trans (Consumes.readParameters (g := g) behind)
    rcases signature with laid | ⟨nothing, ends⟩
    · refine .phrase (Laid.finish (.node trivial ?_))
      split
      · next empty =>
        rw [List.isEmpty_iff.mp empty] at laid
        rwa [Node.children, List.append_nil]
      · exact lays.readBlock (Nat.le_trans suffix.length_le below)
          (endsAt_lastPosition keyword (word :: behind)) laid
    · simp only [nothing, List.isEmpty_nil, ↓reduceIte]
      exact ended ends rfl (fun _ => trivial) (List.append_nil _)

theorem readOptionalBlock {finish : Position} {rest : List Lexeme} (short : rest.length ≤ n)
    {nodes : List Node} {lexemes : List Lexeme} (ends : EndsAt finish lexemes)
    (laid : Laid .phrase nodes lexemes rest) :
    Laid .phrase (nodes ++ (g.readOptionalBlock finish rest).1.getD []) lexemes
      (g.readOptionalBlock finish rest).2 := by
  simp only [Grammar.readOptionalBlock]
  split
  · exact lays.readBlock short ends laid
  · rwa [Option.getD_none, List.append_nil]

theorem readClass {keyword : Lexeme} (declares : keyword.Declares) (rest : List Lexeme)
    (short : rest.length ≤ n) :
    Laid .statement [.finish (g.readClass keyword rest)] (keyword :: rest) [] := by
  simp only [Grammar.readClass, lays.attributes]
  split
  · next tree named => exact .phrase (Laid.finish (Laid.readName_error named))
  · next name behind named =>
    obtain ⟨word, isWord, rfl⟩ := readName_of_ok named
    obtain ⟨versions, few, versioned, same⟩ := readVersion_names behind
    have plain : keyword.Plain := Lexeme.plain_of_role declares.1 rfl rfl
    have named : ∀ name ∈ word :: versions, name.Names := by
      simpa using ⟨Or.inl isWord, versioned⟩
    have introduction : Introduction (keyword :: ((word :: versions) ++ [])) :=
      .intro declares (Nat.succ_le_succ few) named .absent
    have parts : Laid .phrase [] (keyword :: ((word :: versions) ++ [])) [] := by
      rw [List.append_nil]
      exact .skip_head plain (Laid.names named)
    have whole : keyword :: word :: behind =
        keyword :: ((word :: versions) ++ []) ++ (readVersion behind).2 := by
      rw [List.append_nil, List.cons_append, List.cons_append, ← same]
    have suffix := (readAttributes_suffix _).trans (readVersion_suffix behind)
    rcases Laid.readAttributes introduction parts (readVersion behind).2 with
      laid | ⟨nothing, ends⟩
    · rw [← whole] at laid
      exact .phrase (Laid.finish (.node trivial (lays.readOptionalBlock
        (Nat.le_trans suffix.length_le (Nat.le_of_lt short))
        (endsAt_lastPosition keyword (word :: behind)) laid)))
    · rw [← whole] at ends
      simp only [nothing]
      exact ended ends rfl (fun _ => trivial) rfl

include c in
theorem readField {keyword : Lexeme} (declares : keyword.Declares) (rest : List Lexeme)
    (short : rest.length ≤ n) :
    Laid .statement [.finish (g.readField keyword rest)] (keyword :: rest) [] := by
  have plain : keyword.Plain := Lexeme.plain_of_role declares.1 rfl rfl
  rcases rest with _ | ⟨first, rest⟩
  · exact .phrase (Laid.finish (.fault_head List.nil_suffix))
  · simp only [Grammar.readField, lays.attributes, List.head?_cons, Option.bind_some,
      List.tail_cons]
    split
    · exact .phrase (Laid.finish (.fault [keyword] (List.suffix_refl _)))
    · next holder spelled =>
      have names : first.Names := by
        simp only [Lexeme.asVar?] at spelled
        split at spelled
        · next sigil kind => exact .inr (.inr ⟨sigil, kind⟩)
        · contradiction
      have introduction : Introduction (keyword :: ([first] ++ [])) :=
        .intro declares (by simp) (by simpa using names) .absent
      have parts : Laid .phrase [holder] (keyword :: ([first] ++ [])) [] :=
        .skip_head plain (Laid.asVar? spelled)
      have suffix := readAttributes_suffix rest
      rcases Laid.readAttributes introduction parts rest with laid | ⟨nothing, ends⟩
      · refine .phrase (Laid.finish ?_)
        generalize (SigilScript.readAttributes rest).2 = behind at *
        rcases behind with _ | ⟨op, value⟩
        · exact .node trivial laid
        · dsimp only
          split
          · next default =>
            have role : op.Plain := Lexeme.plain_of_default default
            refine .node trivial (.trans laid ?_)
            dsimp only
            split
            · exact .fault_head List.nil_suffix
            · next filled =>
              have below := suffix.length_le
              simp only [List.length_cons] at below short
              exact .skip_head role (lays.readWhole c _ _ (by omega)
                fun empty => filled (by rw [empty]; rfl))
          · exact .node trivial laid
      · simp only [nothing]
        exact ended ends rfl (fun _ => trivial) rfl

theorem readMethodDecl {keyword : Lexeme} (declares : keyword.Declares) (rest : List Lexeme)
    (short : rest.length ≤ n) :
    Laid .phrase [(g.readMethodDecl keyword rest).1] (keyword :: rest)
      (g.readMethodDecl keyword rest).2 := by
  simp only [Grammar.readMethodDecl, lays.attributes]
  split
  · next tree named => exact Laid.readName_error named
  · next name behind named =>
    obtain ⟨word, isWord, rfl⟩ := readName_of_ok named
    exact lays.readDeclared [word] declares (by simp) (List.forall_mem_singleton.mpr (.inl isWord))
      (endsAt_lastPosition keyword (word :: behind)) (Nat.le_of_lt short) (.methodDecl name)
      (fun _ _ _ => trivial) fun _ _ => rfl

theorem readPackage {keyword : Lexeme} (plain : keyword.Plain) (rest : List Lexeme)
    (short : rest.length ≤ n) :
    Laid .phrase [(g.readPackage keyword rest).1] (keyword :: rest)
      (g.readPackage keyword rest).2 := by
  simp only [Grammar.readPackage]
  split
  · next tree named => exact Laid.readName_error named
  · next name behind named =>
    obtain ⟨word, isWord, rfl⟩ := readName_of_ok named
    have laid : Laid .phrase [] (keyword :: word :: behind) (readVersion behind).2 :=
      .skip_head plain (.skip_head (Lexeme.plain_of_word isWord) (Laid.readVersion behind))
    have suffix := readVersion_suffix behind
    exact .node trivial (lays.readOptionalBlock
      (Nat.le_trans suffix.length_le (Nat.le_of_lt short))
      (endsAt_lastPosition keyword (word :: behind)) laid)

include c in
theorem readUse (negated : Bool) {keyword : Lexeme} (plain : keyword.Plain) (rest : List Lexeme)
    (short : rest.length ≤ n) :
    Laid .phrase [(g.readUse negated keyword rest).1] (keyword :: rest)
      (g.readUse negated keyword rest).2 := by
  simp only [Grammar.readUse]
  rcases versioned : readVersion rest with ⟨_ | version, behind⟩
  · obtain rfl := readVersion_none versioned
    dsimp only
    split
    · next tree named => exact Laid.readName_error named
    · next name behind named =>
      obtain ⟨word, isWord, rfl⟩ := readName_of_ok named
      have head : Laid .phrase [] (keyword :: word :: behind) behind :=
        .skip_head plain (.plain (Lexeme.plain_of_word isWord))
      have imported {left : List Lexeme} (suffix : left <:+ behind) :
          Laid .phrase (if left.isEmpty then [] else
            Grammar.importsOf (g.readWhole keyword.position left)) left [] := by
        split
        · next empty =>
          rw [List.isEmpty_iff.mp empty]
          exact .refl []
        · next filled =>
          have below := Nat.le_trans suffix.length_le (Nat.le_of_lt short)
          exact (lays.readWhole c _ _ below fun empty => filled (by rw [empty]; rfl)).importsOf
      refine .node trivial ?_
      dsimp only [Node.children]
      split
      · exact .trans head (imported (List.suffix_refl _))
      · exact .trans head (.trans (Laid.readVersion behind) (imported (readVersion_suffix behind)))
  · have laid := Laid.readVersion rest
    rw [versioned] at laid
    exact .node trivial (.skip_head plain laid)

/-! ## Blocks with a head -/

omit lays in
theorem handlerVariable {opener closer : Lexeme} {inner left : List Lexeme}
    (partner : opener.category.closer? = some closer.category) :
    Laid .phrase [Grammar.handlerVariable opener inner] (opener :: (inner ++ closer :: left))
      left := by
  rcases inner with _ | ⟨holder, _ | ⟨extra, inner⟩⟩
  · exact .fault_group []
  · simp only [Grammar.handlerVariable]
    rcases spelled : holder.asVar? with _ | tree
    · exact .group partner (.phrase (.fault_head List.nil_suffix))
    · exact .group partner (.phrase (Laid.asVar? spelled))
  · exact .group partner (.phrase (.fault [holder] List.nil_suffix))

omit lays in
theorem handlerHolder (rest : List Lexeme) :
    Laid .phrase (readHandlerHolder rest).1.toList rest (readHandlerHolder rest).2 := by
  rcases rest with _ | ⟨opener, rest⟩
  · exact .refl []
  · simp only [readHandlerHolder]
    split
    · exact Laid.readGroup Option.toList (fun _ _ _ _ partner => handlerVariable partner)
        fun _ => rfl
    · exact .refl _

theorem readHandler {finish : Position} {rest : List Lexeme} (short : rest.length ≤ n)
    {nodes : List Node} {lexemes : List Lexeme} (ends : EndsAt finish lexemes)
    (laid : Laid .phrase nodes lexemes rest) :
    Laid .phrase (nodes ++ (g.readHandler finish rest).1.toList.flatMap Node.handlerParts) lexemes
      (g.readHandler finish rest).2 := by
  rcases rest with _ | ⟨keyword, rest⟩
  · rwa [Grammar.readHandler, Option.toList_none, List.flatMap_nil, List.append_nil]
  · rw [readHandler_cons]
    split
    · next spelled =>
      have head := (laid.skip (Lexeme.plain_of_spelled spelled rfl rfl)).trans (handlerHolder rest)
      have below : (readHandlerHolder rest).2.length ≤ n :=
        Nat.le_trans (handlerHolder rest).suffix.length_le (Nat.le_of_lt short)
      have body := lays.readBlock below ends head
      simpa [Node.handlerParts] using body
    · rwa [Option.toList_none, List.flatMap_nil, List.append_nil]

theorem readTry {keyword : Lexeme} (plain : keyword.Plain) (rest : List Lexeme)
    (short : rest.length ≤ n) :
    Laid .phrase [(g.readTry keyword rest).1] (keyword :: rest) (g.readTry keyword rest).2 := by
  have ends := endsAt_lastPosition keyword rest
  have body := lays.readBlock short ends (.plain plain)
  have suffix := Consumes.readBlock (g := g) (lastPosition keyword rest) rest
  have handled := lays.readHandler (Nat.le_trans suffix.length_le short) ends body
  have suffix' := (readHandler_suffix g (lastPosition keyword rest) _).trans suffix
  exact .node trivial (lays.readContinuation rfl rfl "finally" (Nat.le_trans suffix'.length_le short)
    ends handled)

theorem readPhaseBlock {phase : Lexeme} (plain : phase.Plain) (rest : List Lexeme)
    (short : rest.length ≤ n) :
    Laid .phrase [(g.readPhaseBlock phase rest).1] (phase :: rest)
      (g.readPhaseBlock phase rest).2 :=
  .node trivial (lays.readBlock short (endsAt_lastPosition phase rest) (.plain plain))

/-! ## Dispatch -/

omit lays in
theorem dangling (keyword : Lexeme) (rest : List Lexeme) :
    Laid .statement [Grammar.dangling keyword] (keyword :: rest) [] :=
  .phrase (.fault_head List.nil_suffix)

include c in
theorem readControl {keyword : Lexeme} (role : keyword.category = .controlKeyword)
    (rest : List Lexeme) (short : rest.length ≤ n) :
    Laid .statement [g.readControl keyword rest] (keyword :: rest) [] := by
  have plain : keyword.Plain := Lexeme.plain_of_role role rfl rfl
  simp only [Grammar.readControl]
  split
  · exact .phrase (Laid.finish (lays.readConditional c _ plain rest short))
  · exact .phrase (Laid.finish (lays.readConditional c _ plain rest short))
  · exact .phrase (Laid.finish (lays.readWhile c _ plain rest short))
  · exact .phrase (Laid.finish (lays.readWhile c _ plain rest short))
  · next text => exact .phrase (Laid.finish (lays.readFor c ⟨role, .inl text⟩ rest short))
  · next text => exact .phrase (Laid.finish (lays.readFor c ⟨role, .inr text⟩ rest short))
  · exact dangling keyword rest

include c in
theorem readReserved {keyword : Lexeme} (role : keyword.category = .keyword) (rest : List Lexeme)
    (short : rest.length < n) :
    Laid .statement [g.readReserved keyword rest] (keyword :: rest) [] := by
  have plain : keyword.Plain := Lexeme.plain_of_role role rfl rfl
  have below : rest.length ≤ n := Nat.le_of_lt short
  have whole : Laid .statement [g.readWhole keyword.position (keyword :: rest)] (keyword :: rest)
      [] := .phrase (lays.readWhole c _ _ short (List.cons_ne_nil _ _))
  have declares (spelled : keyword.text ∈ ["sub", "class", "field", "method"]) :
      keyword.Declares := ⟨role, spelled⟩
  simp only [Grammar.readReserved]
  split
  · next spelled =>
    split
    · exact lays.readNamedSub (declares (by rw [spelled]; decide)) rest below
    · exact whole
  · next spelled => exact lays.readClass (declares (by rw [spelled]; decide)) rest below
  · next spelled => exact lays.readField c (declares (by rw [spelled]; decide)) rest below
  · next spelled =>
    exact .phrase (Laid.finish
      (lays.readMethodDecl (declares (by rw [spelled]; decide)) rest below))
  · exact .phrase (Laid.finish (lays.readPackage plain rest below))
  · exact .phrase (Laid.finish (lays.readUse c _ plain rest below))
  · exact .phrase (Laid.finish (lays.readUse c _ plain rest below))
  · exact .phrase (Laid.finish (lays.readTry plain rest below))
  · exact dangling keyword rest
  · exact dangling keyword rest
  · exact .phrase (Laid.finish (lays.readTopic c _ plain rest below))
  · exact .phrase (Laid.finish (lays.readTopic c _ plain rest below))
  · exact .phrase (Laid.finish (lays.readTopic c _ plain rest below))
  · exact .phrase (Laid.finish (lays.readTopic c _ plain rest below))
  · exact .phrase (Laid.finish
      (.node trivial (lays.readBlock below (endsAt_lastPosition keyword rest) (.plain plain))))
  · exact whole

include c in
theorem readSimple (head : Lexeme) (rest : List Lexeme) (short : rest.length < n) :
    Laid .statement [g.readSimple head rest] (head :: rest) [] := by
  have below : rest.length ≤ n := Nat.le_of_lt short
  have whole : Laid .phrase [g.readWhole head.position (head :: rest)] (head :: rest) [] :=
    lays.readWhole c _ _ short (List.cons_ne_nil _ _)
  simp only [Grammar.readSimple]
  split
  · next role => exact lays.readControl c role rest below
  · next role => exact lays.readReserved c role rest short
  · have filled : (head :: rest).length ≤ n := short
    have body := lays.readBlock filled (endsAt_lastPosition head rest) (.refl (head :: rest))
    exact .phrase (Laid.finish (.node trivial body))
  · next role =>
    split
    · exact .phrase (Laid.finish
        (lays.readPhaseBlock (Lexeme.plain_of_role role rfl rfl) rest below))
    · exact .phrase whole
  · exact .phrase whole.foldDeclaration
  · exact .phrase whole

include c in
/-- The condition of a modifier comes first among the parts. -/
theorem readModified (head : Lexeme) (rest : List Lexeme) (short : rest.length < n) :
    Laid .statement [g.readModified head rest] (head :: rest) [] := by
  simp only [Grammar.readModified]
  split
  · exact lays.readSimple c head rest short
  · split
    · next first before keyword after found =>
      have whole := cutAtTopLevel?_whole found
      have modifier := cutAtTopLevel?_found found
      have plain : keyword.Plain :=
        Lexeme.plain_of_role (of_decide_eq_true (Bool.and_eq_true_iff.mp modifier).1) rfl rfl
      have lengths := congrArg List.length whole
      simp only [Cut.whole, List.cons_append, List.length_cons, List.length_append] at lengths
      have condition : Laid .phrase
          [if after.isEmpty then .expected .condition none keyword.position
            else g.readWhole keyword.position after] (keyword :: after) [] := by
        split
        · exact .fault_head List.nil_suffix
        · next filled =>
          exact .skip_head plain (lays.readWhole c _ _ (by omega)
            fun empty => filled (by rw [empty]; rfl))
      have body := lays.readSimple c first before (by omega)
      refine .modified found ?_ ?_ ?_ condition body
      · simp only [Grammar.modified]
        split <;> rfl
      · simp only [Grammar.modified]
        split <;> trivial
      · simp only [Grammar.modified]
        split <;> rfl
    · exact lays.readSimple c head rest short

include c in
theorem readStatement (lexemes : List Lexeme) (short : lexemes.length ≤ n) :
    Laid .statement (g.readStatement lexemes).toList lexemes [] := by
  have whole : Laid .statement (g.readStatement lexemes).toList (withoutTerminator lexemes) [] := by
    have below := Nat.le_trans (withoutTerminator_length lexemes) short
    rw [Grammar.readStatement]
    generalize withoutTerminator lexemes = body at below ⊢
    rcases body with _ | ⟨head, _ | ⟨colon, rest⟩⟩
    · exact .phrase (.refl [])
    · exact lays.readModified c head [] below
    · dsimp only
      split
      · next label =>
        have plain : Laid .statement [] (head :: colon :: rest) rest :=
          .phrase (.skip_head (Lexeme.plain_of_role label.1 rfl rfl)
            (.plain (Lexeme.plain_of_role label.2 rfl rfl)))
        rcases rest with _ | ⟨first, rest⟩
        · exact .phrase (.fault_head List.nil_suffix)
        · simp only [List.length_cons] at below
          have statement := lays.readModified c first rest (by omega)
          exact .trans plain (statement.map_labelled head.text)
      · exact lays.readModified c head (colon :: rest) below
  rcases List.eq_nil_or_concat lexemes with rfl | ⟨front, last, rfl⟩
  · exact whole
  · rw [List.concat_eq_append] at *
    rw [withoutTerminator, List.getLast?_concat, List.dropLast_concat] at whole
    split at whole
    · next ends => exact .terminated (of_decide_eq_true ends) whole
    · exact whole

include c in
theorem readStatements (lexemes : List Lexeme) (short : lexemes.length ≤ n) :
    Laid .statement (g.readStatements lexemes) lexemes [] := by
  rw [Grammar.readStatements]
  fun_induction splitStatements lexemes with
  | case1 => exact .phrase (.refl [])
  | case2 lexeme rest extent ih =>
    have first := lays.readStatement c ((lexeme :: rest).take extent)
      (Nat.le_trans (List.length_take_le' ..) short)
    have others := ih (Nat.le_trans (List.drop_suffix ..).length_le short)
    have statement := first.statement others
    rw [List.filterMap_cons]
    split
    · next empty => rwa [empty] at statement
    · next tree read => rwa [read] at statement

include c in
theorem step : g.step.Lays (n + 1) where
  nothing _ := rfl
  whole anchor lexemes short filled :=
    lays.readWhole c anchor lexemes (Nat.le_of_lt_succ short) filled
  operation level lexeme rest short :=
    lays.readOperation c level lexeme rest (Nat.le_of_lt_succ short)
  climb level _ _ _ short laid := lays.readClimb c level laid (Nat.le_of_lt_succ short)
  operand lexeme rest short := lays.readOperand c lexeme rest (Nat.le_of_lt_succ short)
  primary lexeme rest short := lays.readPrimary c lexeme rest (Nat.le_of_lt_succ short)
  chain _ _ _ short laid := lays.readChain laid (Nat.le_of_lt_succ short)
  items rest short := lays.readItems c rest (Nat.le_of_lt_succ short)
  arguments rest short := lays.readArguments c rest (Nat.le_of_lt_succ short)
  attributes := lays.attributes
  clauses _ _ _ _ short ends laid := lays.readClauses c (Nat.le_of_lt_succ short) ends laid
  statements lexemes short := lays.readStatements c lexemes (Nat.le_of_lt_succ short)

end Lays

theorem lays_full (n : Nat) : full.Lays n := by
  induction n with
  | zero =>
    exact {
      nothing := fun anchor => by rw [full_whole]; rfl
      whole := fun _ _ short => absurd short (Nat.not_lt_zero _)
      operation := fun _ _ _ short => absurd short (Nat.not_lt_zero _)
      climb := fun _ _ _ _ short => absurd short (Nat.not_lt_zero _)
      operand := fun _ _ short => absurd short (Nat.not_lt_zero _)
      primary := fun _ _ short => absurd short (Nat.not_lt_zero _)
      chain := fun _ _ _ short => absurd short (Nat.not_lt_zero _)
      items := fun _ short => absurd short (Nat.not_lt_zero _)
      arguments := fun _ short => absurd short (Nat.not_lt_zero _)
      attributes := rfl
      clauses := fun _ _ _ _ short => absurd short (Nat.not_lt_zero _)
      statements := fun _ short => absurd short (Nat.not_lt_zero _) }
  | succ n ih =>
    rw [← step_full]
    exact ih.step consumes_full

end Grammar

/-- The trees of a program are laid over all its lexemes. -/
theorem laid_parseItems (lexemes : List Lexeme) :
    Laid .statement (parseItems (lexemes.map .ok)) lexemes [] := by
  have laid := (Grammar.lays_full lexemes.length).readStatements Grammar.consumes_full lexemes
    (Nat.le_refl _)
  rw [Grammar.readStatements, ← funext parseStatement_eq, ← parseItems_ok] at laid
  exact laid

end SigilScript
