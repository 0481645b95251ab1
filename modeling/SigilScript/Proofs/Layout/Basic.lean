import SigilScript.Node.Walk
import SigilScript.Proofs.Grammar.StatementPlacement
import SigilScript.Proofs.Scan.Braces

/-! # How trees are laid over lexemes

A tree stands over the lexemes it was read from: its parts in their order, groups inside their
brackets, and between the parts single lexemes that are no brackets. What a production reads is
said by a relation between the trees read, the lexemes given and the lexemes left, so that what
two productions read in turn is composed.

The relation says where the order of the parts is not that of the lexemes, and which lexemes no
tree stands for: the condition behind a modifier comes before its statement, the fault of a missing
colon stands at its question mark, and what is in the groups of attributes is passed over. Of the
lexemes that are no part's, it keeps the head of a loop with a declarator.
-/

namespace SigilScript

/-! ## Lexemes that no tree stands for -/

/-- Neither opens nor closes a group where it is classified as its token asks for. -/
def Lexeme.Plain (lexeme : Lexeme) : Prop :=
  (∃ previous, lexeme = lexeme.token.classify previous) →
    lexeme.category.isOpener = false ∧ lexeme.category.isCloser = false

/-- Names a declared thing, or its version. -/
def Lexeme.Names (lexeme : Lexeme) : Prop :=
  lexeme.isWord = true ∨ lexeme.token.kind = .number ∨ ∃ sigil, lexeme.token.kind = .var sigil

/-- The word of a declaration that may have attributes. -/
def Lexeme.Declares (lexeme : Lexeme) : Prop :=
  lexeme.category = .keyword ∧ lexeme.text ∈ ["sub", "class", "field", "method"]

/-- A signature in parentheses, or none. -/
inductive Signature : List Lexeme → Prop where
  | absent : Signature []
  | group {opener closer : Lexeme} {inner : List Lexeme} (opens : opener.category = .leftParen)
    (closes : closer.category = .rightParen) : Signature (opener :: (inner ++ [closer]))

/-- A declaration up to its attributes: its word, a name and a version or a variable, and a
signature. -/
inductive Introduction : List Lexeme → Prop where
  | intro {keyword : Lexeme} {names signature : List Lexeme} (declares : keyword.Declares)
    (few : names.length ≤ 2) (named : ∀ name ∈ names, name.Names) (signed : Signature signature) :
    Introduction (keyword :: (names ++ signature))

/-- The colon and the word of an attribute. -/
def IsMark (colon word : Lexeme) : Prop := colon.category = .colon ∧ word.isWord = true

/-- A run of attributes, each without a group or with all that its parentheses hold. -/
inductive Marks : List Lexeme → Prop where
  | nil : Marks []
  | name {colon word : Lexeme} {rest : List Lexeme} (mark : IsMark colon word) (more : Marks rest) :
    Marks (colon :: word :: rest)
  | group {colon word opener closer : Lexeme} {inner rest : List Lexeme}
    (mark : IsMark colon word) (opens : opener.category = .leftParen)
    (taken : takeGroup opener (inner ++ [closer]) = (.ok inner, [])) (more : Marks rest) :
    Marks (colon :: word :: opener :: (inner ++ closer :: rest))

/-- An attribute whose parenthesis has no partner, with all that stands behind it. -/
inductive Lost : List Lexeme → Prop where
  | intro {colon word opener : Lexeme} {rest : List Lexeme} (mark : IsMark colon word)
    (opens : opener.category = .leftParen)
    (open_ : cutAtPartner? .leftParen .rightParen 1 rest = none) :
    Lost (colon :: word :: opener :: rest)

/-! ## The relation -/

/-- Whether all parts of a tree stand one behind the other, and nothing else does. -/
def Node.sequential : Node → Bool
  | .ternary .. | .conditional .. | .whileLoop .. | .foreachLoop .. | .sub .. | .classDecl ..
  | .fieldDecl .. | .error _ => false
  | _ => true

/-- The head of a loop with a declarator: what stands behind the declarator is the variable of the
loop, or the parenthesis of its header where the loop has none. -/
inductive LoopHead (declarator : String) (holder : Option Node) : List Lexeme → Prop where
  | intro {keyword word next : Lexeme} {rest : List Lexeme} (begins : keyword.BeginsLoop)
    (declares : word.category = .declarator) (spelled : word.text = declarator)
    (held : holder = next.asVar?) (bare : holder = none → next.category = .leftParen) :
    LoopHead declarator holder (keyword :: word :: next :: rest)

/-- What a tree asks of the lexemes it is read from, its parts apart: a fault is read from none, and
a loop that has a declarator is read from its head, unless its list is a fault. -/
def Node.ReadFrom : Node → List Lexeme → Prop
  | .error _, _ => False
  | .foreachLoop _ (some declarator) holder iterable _, lexemes =>
    iterable.isError = true ∨ LoopHead declarator holder lexemes
  | _, _ => True

/-- Whether trees were read as a part of a list of lexemes, or as statements up to its end. -/
inductive Scope where
  | phrase
  | statement

/-- The trees stand over the lexemes up to those that are left. -/
inductive Laid : Scope → List Node → List Lexeme → List Lexeme → Prop where
  | refl (lexemes : List Lexeme) : Laid .phrase [] lexemes lexemes
  | plain {lexeme : Lexeme} {left : List Lexeme} (plain : lexeme.Plain) :
    Laid .phrase [] (lexeme :: left) left
  | trans {scope : Scope} {nodes more : List Node} {lexemes between left : List Lexeme}
    (first : Laid scope nodes lexemes between) (second : Laid scope more between left) :
    Laid scope (nodes ++ more) lexemes left
  | group {scope : Scope} {nodes : List Node} {opener closer : Lexeme} {inner left : List Lexeme}
    (partner : opener.category.closer? = some closer.category)
    (inside : Laid scope nodes inner []) :
    Laid .phrase nodes (opener :: (inner ++ closer :: left)) left
  | marked {nodes : List Node} {intro marks left : List Lexeme} (introduction : Introduction intro)
    (parts : Laid .phrase nodes intro []) (attributes : Marks marks) :
    Laid .phrase nodes (intro ++ (marks ++ left)) left
  | node {tree : Node} {lexemes left : List Lexeme} (reads : tree.ReadFrom lexemes)
    (parts : Laid .phrase tree.children lexemes left) : Laid .phrase [tree] lexemes left
  /-- The fault stands at a lexeme it was read from, or at the next one. -/
  | fault {cause : SyntaxCause} {lexeme : Lexeme} (front : List Lexeme) {back left : List Lexeme}
    (behind : left <:+ lexeme :: back) :
    Laid .phrase [.error ⟨cause, lexeme.position⟩] (front ++ lexeme :: back) left
  /-- Something is missing behind the last lexeme. -/
  | missing {nodes : List Node} {cause : SyntaxCause} {last : Lexeme} {front left : List Lexeme}
    (parts : Laid .phrase nodes (front ++ [last]) []) :
    Laid .phrase (nodes ++ [.error ⟨cause, last.position⟩]) (front ++ last :: left) left
  | uncoloned {condition branch : Node} {question : Lexeme} {lexemes rest left : List Lexeme}
    (asks : question.category = .question)
    (first : Laid .phrase [condition] lexemes (question :: rest))
    (second : Laid .phrase [branch] (question :: rest) left) :
    Laid .phrase [.ternary condition branch (.error ⟨.missingTernaryColon, question.position⟩)]
      lexemes left
  | phrase {nodes : List Node} {lexemes left : List Lexeme}
    (laid : Laid .phrase nodes lexemes left) : Laid .statement nodes lexemes left
  /-- The rest of a declaration is lost with the group of an attribute. -/
  | lost {tree : Node} {intro marks rest : List Lexeme} (introduction : Introduction intro)
    (entangled : tree.sequential = false) (reads : tree.ReadFrom (intro ++ (marks ++ rest)))
    (parts : Laid .phrase tree.children intro []) (attributes : Marks marks) (lost : Lost rest) :
    Laid .statement [tree] (intro ++ (marks ++ rest)) []
  /-- The condition of a modifier comes before what it modifies. -/
  | modified {tree condition body : Node} {lexemes : List Lexeme} {cut : Cut}
    (found : cutAtTopLevel? Lexeme.isModifier 0 lexemes = some cut)
    (entangled : tree.sequential = false) (reads : tree.ReadFrom lexemes)
    (parts : tree.children = [condition, body])
    (first : Laid .phrase [condition] (cut.found :: cut.after) [])
    (second : Laid .statement [body] cut.before []) : Laid .statement [tree] lexemes []
  | terminated {nodes : List Node} {lexemes : List Lexeme} {last : Lexeme}
    (ends : last.category = .terminator) (laid : Laid .statement nodes lexemes []) :
    Laid .statement nodes (lexemes ++ [last]) []
  /-- A statement up to where the boundary ends it, and those behind it. -/
  | statement {nodes more : List Node} {lexemes : List Lexeme}
    (first : Laid .statement nodes (lexemes.take (Boundary.start.extent lexemes)) [])
    (others : Laid .statement more (lexemes.drop (Boundary.start.extent lexemes)) []) :
    Laid .statement (nodes ++ more) lexemes []

namespace Lexeme

variable {lexeme : Lexeme}

theorem plain_of_role {role : Category} (same : lexeme.category = role)
    (opens : role.isOpener = false) (closes : role.isCloser = false) : lexeme.Plain := by
  subst same
  exact fun _ => ⟨opens, closes⟩

/-- The category of a classified lexeme is that of its token. -/
theorem category_of_classified {previous : Option Category}
    (classified : lexeme = lexeme.token.classify previous) :
    lexeme.category = lexeme.token.categoryAfter previous :=
  congrArg Lexeme.category classified

theorem plain_of_word (word : lexeme.isWord = true) : lexeme.Plain := by
  rintro ⟨previous, classified⟩
  rw [category_of_classified classified]
  exact Token.categoryAfter_plain (.inl (of_decide_eq_true word)) previous

theorem plain_of_kind (notWord : lexeme.token.kind ≠ .identifier)
    (opens : lexeme.token.category.isOpener = false)
    (closes : lexeme.token.category.isCloser = false) : lexeme.Plain := by
  rintro ⟨previous, classified⟩
  have role : lexeme.token.categoryAfter previous = lexeme.token.category := by
    simp only [Token.categoryAfter]
    split
    · next word => exact absurd word notWord
    · rfl
  rw [category_of_classified classified, role]
  exact ⟨opens, closes⟩

theorem plain_of_operator {spelling : String} (role : lexeme.isOperator spelling = true) :
    lexeme.Plain := by
  simp only [isOperator, Bool.and_eq_true, Bool.or_eq_true, decide_eq_true_eq] at role
  rcases role.1 with role | role <;> exact plain_of_role role rfl rfl

theorem plain_of_spelled {role : Category} {text : String}
    (spelled : lexeme.isSpelled role text = true) (opens : role.isOpener = false)
    (closes : role.isCloser = false) : lexeme.Plain :=
  plain_of_role (of_decide_eq_true (Bool.and_eq_true_iff.mp spelled).1) opens closes

theorem plain_of_default (role : lexeme.isDefaultOperator = true) : lexeme.Plain := by
  simp only [isDefaultOperator, Bool.and_eq_true, decide_eq_true_eq] at role
  exact plain_of_role role.1 rfl rfl

theorem Names.plain (names : lexeme.Names) : lexeme.Plain := by
  rcases names with word | number | ⟨sigil, variable_⟩
  · exact plain_of_word word
  · apply plain_of_kind <;> simp [Token.category, number, Category.isOpener, Category.isCloser]
  · apply plain_of_kind <;> simp [Token.category, variable_, Category.isOpener, Category.isCloser]

end Lexeme

namespace Node

@[simp] theorem children_labelled (tree : Node) (label : String) :
    (tree.labelled label).children = tree.children := by
  cases tree <;> rfl

@[simp] theorem isError_labelled (tree : Node) (label : String) :
    (tree.labelled label).isError = tree.isError := by
  cases tree <;> rfl

@[simp] theorem readFrom_labelled (tree : Node) (label : String) (lexemes : List Lexeme) :
    (tree.labelled label).ReadFrom lexemes ↔ tree.ReadFrom lexemes := by
  cases tree with
  | foreachLoop _ declarator => cases declarator <;> rfl
  | _ => rfl

@[simp] theorem sequential_labelled (tree : Node) (label : String) :
    (tree.labelled label).sequential = tree.sequential := by
  cases tree <;> rfl

namespace ReadFrom

variable {tree : Node} {lexemes : List Lexeme}

theorem sound (reads : tree.ReadFrom lexemes) : tree.isError = false := by
  cases tree <;> first | rfl | contradiction

/-- What stands behind changes nothing. -/
theorem append (reads : tree.ReadFrom lexemes) (back : List Lexeme) :
    tree.ReadFrom (lexemes ++ back) := by
  cases tree with
  | foreachLoop label declarator =>
    cases declarator with
    | none => trivial
    | some declarator =>
      rcases reads with fault | ⟨begins, declares, spelled, held, bare⟩
      · exact .inl fault
      · exact .inr ⟨begins, declares, spelled, held, bare⟩
  | error => contradiction
  | _ => trivial

/-- A tree without parts asks nothing. -/
theorem leaf (sound : tree.isError = false) (parts : tree.children = []) :
    tree.ReadFrom lexemes := by
  cases tree with
  | foreachLoop => simp [children] at parts
  | error => contradiction
  | _ => trivial

end ReadFrom

end Node

namespace Laid

variable {scope : Scope} {nodes more : List Node} {lexemes left : List Lexeme}

/-- What is left is an end of what was given. -/
theorem suffix (laid : Laid scope nodes lexemes left) : left <:+ lexemes := by
  induction laid with
  | refl => exact List.suffix_refl _
  | plain => exact List.suffix_cons ..
  | trans _ _ first second => exact second.trans first
  | group _ _ _ =>
    exact (List.suffix_cons ..).trans ((List.suffix_append ..).trans (List.suffix_cons ..))
  | marked => exact (List.suffix_append ..).trans (List.suffix_append ..)
  | node _ _ parts => exact parts
  | fault front behind => exact behind.trans (List.suffix_append ..)
  | missing => exact (List.suffix_cons ..).trans (List.suffix_append ..)
  | uncoloned _ _ _ first second => exact second.trans first
  | phrase _ laid => exact laid
  | lost | modified | terminated | statement => exact List.nil_suffix

/-- What a phrase is read from may be followed by more. -/
theorem before (laid : Laid .phrase nodes lexemes left) (back : List Lexeme) :
    Laid .phrase nodes (lexemes ++ back) (left ++ back) := by
  generalize same : Scope.phrase = scope at laid
  induction laid with
  | refl => exact .refl _
  | plain plain => exact .plain plain
  | trans _ _ first second =>
    subst same
    exact .trans (first rfl) (second rfl)
  | group partner inside _ =>
    rw [List.cons_append, List.append_assoc, List.cons_append]
    exact .group partner inside
  | marked introduction parts attributes _ =>
    rw [List.append_assoc, List.append_assoc]
    exact .marked introduction parts attributes
  | node reads _ parts => exact .node (reads.append back) (parts rfl)
  | @fault cause lexeme front rest left behind =>
    rw [List.append_assoc, List.cons_append]
    refine .fault front ?_
    obtain ⟨between, split⟩ := behind
    exact ⟨between, by rw [← List.append_assoc, split, List.cons_append]⟩
  | missing parts _ =>
    rw [List.append_assoc, List.cons_append]
    exact .missing parts
  | uncoloned asks _ _ first second => exact .uncoloned asks (first rfl) (second rfl)
  | phrase | lost | modified | terminated | statement => contradiction

/-- A phrase that takes all lexemes, with more behind it. -/
theorem all_before (laid : Laid .phrase nodes lexemes []) (back : List Lexeme) :
    Laid .phrase nodes (lexemes ++ back) back :=
  laid.before back

theorem skip {lexeme : Lexeme} (laid : Laid .phrase nodes lexemes (lexeme :: left))
    (plain : lexeme.Plain) : Laid .phrase nodes lexemes left := by
  have whole := laid.trans (.plain plain)
  rwa [List.append_nil] at whole

theorem skip_head {lexeme : Lexeme} (plain : lexeme.Plain)
    (laid : Laid .phrase nodes lexemes left) : Laid .phrase nodes (lexeme :: lexemes) left :=
  .trans (.plain plain) laid

/-- A tree without parts over a lexeme. -/
theorem leaf {tree : Node} {lexeme : Lexeme} (sound : tree.isError = false)
    (parts : tree.children = []) (plain : lexeme.Plain) :
    Laid .phrase [tree] (lexeme :: left) left :=
  .node (.leaf sound parts) (by rw [parts]; exact .plain plain)

/-- A fault that takes the place of what was read stands at the next lexeme. -/
theorem fault_at {cause : SyntaxCause} {lexeme : Lexeme} {rest : List Lexeme}
    (laid : Laid scope nodes lexemes (lexeme :: rest)) (behind : left <:+ lexeme :: rest) :
    Laid .phrase [.error ⟨cause, lexeme.position⟩] lexemes left := by
  obtain ⟨front, rfl⟩ := laid.suffix
  exact .fault front behind

theorem fault_head {cause : SyntaxCause} {lexeme : Lexeme} {rest : List Lexeme}
    (behind : left <:+ lexeme :: rest) :
    Laid .phrase [.error ⟨cause, lexeme.position⟩] (lexeme :: rest) left :=
  .fault [] behind

/-- A fault at an opener takes the place of the whole group. -/
theorem fault_group {cause : SyntaxCause} {opener closer : Lexeme} (inner : List Lexeme) :
    Laid .phrase [.error ⟨cause, opener.position⟩] (opener :: (inner ++ closer :: left)) left :=
  .fault_head ((List.suffix_cons ..).trans ((List.suffix_append ..).trans (List.suffix_cons ..)))

/-- What is left over where a tree was to take every lexeme is a fault in its place. -/
theorem finish {parse : Parse Node} (laid : Laid scope [parse.1] lexemes parse.2) :
    Laid scope [.finish parse] lexemes [] := by
  rcases parse with ⟨tree, _ | ⟨extra, rest⟩⟩
  · exact laid
  · cases scope with
    | phrase => exact laid.fault_at List.nil_suffix
    | statement => exact .phrase (laid.fault_at List.nil_suffix)

/-- An item of two lists in a row is one of the first or one of the second. -/
private theorem around_append {front back first second : List Node} {tree : Node}
    (split : front ++ tree :: back = first ++ second) :
    (∃ middle, first = front ++ tree :: middle ∧ back = middle ++ second) ∨
      ∃ middle, front = first ++ middle ∧ second = middle ++ tree :: back := by
  rcases List.append_eq_append_iff.mp split with ⟨middle, rfl, same⟩ | ⟨middle, rfl, same⟩
  · rcases middle with _ | ⟨head, middle⟩
    · exact .inr ⟨[], by simp, by simpa using same.symm⟩
    · obtain ⟨rfl, rfl⟩ := List.cons.inj same
      exact .inl ⟨middle, rfl, rfl⟩
  · exact .inr ⟨middle, rfl, same⟩

private theorem around_singleton {front back : List Node} {tree other : Node}
    (split : front ++ tree :: back = [other]) : front = [] ∧ tree = other ∧ back = [] := by
  rcases front with _ | ⟨first, front⟩
  · exact ⟨rfl, List.cons.inj split⟩
  · simp at split

/-- A tree whose parts stand one behind the other, among others, may be replaced by its parts. -/
theorem expand {front back : List Node} {tree : Node}
    (laid : Laid scope (front ++ tree :: back) lexemes left) (loose : tree.sequential = true) :
    Laid scope (front ++ tree.children ++ back) lexemes left := by
  -- A tree that is introduced alone, but not by its parts, is not sequential.
  have alone {front back : List Node} {other : Node} (entangled : other.sequential = false) :
      front ++ tree :: back ≠ [other] := by
    intro same
    obtain ⟨-, rfl, -⟩ := around_singleton same
    rw [loose] at entangled
    contradiction
  generalize split : front ++ tree :: back = nodes at laid
  induction laid generalizing front back with
  | refl => simp at split
  | plain => simp at split
  | trans first second ihFirst ihSecond =>
    rcases around_append split with ⟨middle, rfl, rfl⟩ | ⟨middle, rfl, rfl⟩
    · have laid := (ihFirst rfl).trans second
      rwa [List.append_assoc] at laid
    · have laid := first.trans (ihSecond rfl)
      simpa only [List.append_assoc] using laid
  | group partner _ inside => exact .group partner (inside split)
  | marked introduction _ attributes parts => exact .marked introduction (parts split) attributes
  | @node other _ _ reads parts =>
    obtain ⟨rfl, rfl, rfl⟩ := around_singleton split
    simpa using parts
  | fault => exact absurd split (alone rfl)
  | missing laid ih =>
    rcases around_append split with ⟨middle, rfl, rfl⟩ | ⟨middle, -, same⟩
    · have laid := ih rfl
      rw [← List.append_assoc]
      exact .missing laid
    · exact absurd same.symm (alone rfl)
  | uncoloned => exact absurd split (alone rfl)
  | phrase _ laid => exact .phrase (laid split)
  | lost _ entangled => exact absurd split (alone entangled)
  | modified _ entangled => exact absurd split (alone entangled)
  | terminated ends _ laid => exact .terminated ends (laid split)
  | statement first others ihFirst ihOthers =>
    rcases around_append split with ⟨middle, rfl, rfl⟩ | ⟨middle, rfl, rfl⟩
    · have laid := (ihFirst rfl).statement others
      rwa [List.append_assoc] at laid
    · have laid := first.statement (ihOthers rfl)
      simpa only [List.append_assoc] using laid

/-- A tree whose parts stand one behind the other stands where they do. -/
theorem parts {tree : Node} (laid : Laid scope [tree] lexemes left)
    (loose : tree.sequential = true) : Laid scope tree.children lexemes left := by
  have alone : Laid scope ([] ++ tree :: []) lexemes left := laid
  simpa using alone.expand loose

/-- A label changes nothing in where a tree stands. -/
theorem map_labelled (laid : Laid scope nodes lexemes left) (label : String) :
    Laid scope (nodes.map fun tree => tree.labelled label) lexemes left := by
  induction laid with
  | refl => exact .refl _
  | plain plain => exact .plain plain
  | trans _ _ first second =>
    rw [List.map_append]
    exact .trans first second
  | group partner _ inside => exact .group partner inside
  | marked introduction _ attributes parts => exact .marked introduction parts attributes
  | node reads parts _ =>
    exact .node (by rwa [Node.readFrom_labelled]) (by rwa [Node.children_labelled])
  | fault front behind => exact .fault front behind
  | missing _ parts =>
    rw [List.map_append]
    exact .missing parts
  | uncoloned asks first second _ _ => exact .uncoloned asks first second
  | phrase _ laid => exact .phrase laid
  | lost introduction entangled reads parts attributes lost _ =>
    exact .lost introduction (by rwa [Node.sequential_labelled]) (by rwa [Node.readFrom_labelled])
      (by rwa [Node.children_labelled]) attributes lost
  | modified found entangled reads parts first second _ _ =>
    exact .modified found (by rwa [Node.sequential_labelled]) (by rwa [Node.readFrom_labelled])
      (by rwa [Node.children_labelled]) first second
  | terminated ends _ laid => exact .terminated ends laid
  | statement _ _ first others =>
    rw [List.map_append]
    exact .statement first others

end Laid

end SigilScript
