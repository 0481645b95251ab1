import Mathlib.Algebra.Order.Group.Multiset
import SigilScript.Proofs.Layout.Expression
import SigilScript.Proofs.Node.Traversal
import SigilScript.Proofs.Scan.Spelling

/-! # Tallies of variables

Every variable of a source ends up in one place of its trees: as a variable of its own or as the
method of a call. So the names of the variables that a production was given are the names in what
it read, with those in the lexemes it left. That tally is even for trees without faults, and two
tallies that follow one another add up, whatever order the parts of a tree are kept in.
-/

namespace SigilScript

/-! ## Names -/

/-- A spelling without its sigil. -/
def withoutSigil (spelling : String) : String := String.ofList spelling.toList.tail

/-- Whether a spelling is that of a variable: a sigil comes first. -/
def spellsVariable (spelling : String) : Bool :=
  (spelling.toList.head?.bind Sigil.ofChar?).isSome

/-- The name of a variable, without its sigil. -/
def Token.variableName? (token : Token) : Option String :=
  match token.kind with
  | .var _ => some (withoutSigil token.text)
  | _ => none

namespace Node

/-- The variable that a tree itself names: as a variable, or as the method that it calls. -/
def variableName? : Node → Option String
  | .var _ name => some name
  | .methodCall _ method _ => if spellsVariable method then some (withoutSigil method) else none
  | _ => none

/-- The names of the variables anywhere in a tree. -/
def variableNames (node : Node) : List String :=
  (node.outline 0).filterMap fun part => part.2.variableName?

theorem variableNames_eq_preorder (node : Node) :
    node.variableNames = node.preorder.filterMap variableName? := by
  rw [variableNames, preorder, List.filterMap_map]
  rfl

/-- The names in a tree are the one it names itself, if any, and those of its children. -/
theorem variableNames_eq (node : Node) :
    node.variableNames = node.variableName?.toList ++ node.children.flatMap variableNames := by
  rw [variableNames_eq_preorder, preorder_eq, List.filterMap_cons, List.filterMap_flatMap,
    funext variableNames_eq_preorder]
  cases node.variableName? <;> rfl

end Node

/-- The names that lexemes spell as variables. -/
def spelledNames (lexemes : List Lexeme) : Multiset String :=
  lexemes.filterMap fun lexeme => lexeme.token.variableName?

/-- The names of the variables that trees hold. -/
def heldNames (trees : List Node) : Multiset String := trees.flatMap Node.variableNames

@[simp] theorem spelledNames_nil : spelledNames [] = 0 := rfl

theorem spelledNames_cons (lexeme : Lexeme) (lexemes : List Lexeme) :
    spelledNames (lexeme :: lexemes) =
      Multiset.ofList lexeme.token.variableName?.toList + spelledNames lexemes := by
  rw [spelledNames, List.filterMap_cons]
  cases lexeme.token.variableName? <;> rfl

@[simp] theorem spelledNames_append (front back : List Lexeme) :
    spelledNames (front ++ back) = spelledNames front + spelledNames back := by
  rw [spelledNames, List.filterMap_append, ← Multiset.coe_add]
  rfl

@[simp] theorem heldNames_nil : heldNames [] = 0 := rfl

@[simp] theorem heldNames_append (front back : List Node) :
    heldNames (front ++ back) = heldNames front + heldNames back := by
  rw [heldNames, List.flatMap_append, ← Multiset.coe_add]
  rfl

theorem heldNames_cons (tree : Node) (trees : List Node) :
    heldNames (tree :: trees) = heldNames [tree] + heldNames trees :=
  heldNames_append [tree] trees

theorem heldNames_singleton (tree : Node) :
    heldNames [tree] = Multiset.ofList tree.variableName?.toList + heldNames tree.children := by
  rw [heldNames, List.flatMap_singleton, Node.variableNames_eq, ← Multiset.coe_add, heldNames]

/-- A tree that names no variable itself holds the names of its children. -/
theorem heldNames_children (tree : Node) (none : tree.variableName? = none) :
    heldNames [tree] = heldNames tree.children := by
  rw [heldNames_singleton, none]
  exact zero_add _

/-! ## Lexemes that no variable stands for -/

/-- Classified as its token asks for, and spelled as its kind asks for. -/
def Lexeme.Genuine (lexeme : Lexeme) : Prop :=
  (∃ previous, lexeme = lexeme.token.classify previous) ∧ lexeme.token.Spelled

/-- Spells no variable, where it is classified as its token asks for. -/
def Lexeme.Silent (lexeme : Lexeme) : Prop := lexeme.Genuine → lexeme.token.variableName? = none

namespace Lexeme

variable {lexeme : Lexeme}

theorem silent_of_kind (other : ∀ sigil, lexeme.token.kind ≠ .var sigil) : lexeme.Silent := by
  intro _
  simp only [Token.variableName?]

theorem silent_of_role {role : Category} (same : lexeme.category = role) (other : role ≠ .var) :
    lexeme.Silent := by
  rintro ⟨⟨previous, classified⟩, spelled⟩
  refine silent_of_kind (fun sigil kind => other ?_) ⟨⟨previous, classified⟩, spelled⟩
  rw [← same, category_of_classified classified]
  simp only [Token.categoryAfter, Token.category, kind]

theorem silent_of_word (word : lexeme.isWord = true) : lexeme.Silent :=
  silent_of_kind fun sigil kind => by
    rw [isWord, decide_eq_true_eq, kind] at word
    contradiction

theorem silent_of_operator {spelling : String} (role : lexeme.isOperator spelling = true) :
    lexeme.Silent := by
  simp only [isOperator, Bool.and_eq_true, Bool.or_eq_true, decide_eq_true_eq] at role
  rcases role.1 with role | role <;> exact silent_of_role role (by decide)

theorem silent_of_spelled {role : Category} {text : String}
    (spelled : lexeme.isSpelled role text = true) (other : role ≠ .var) : lexeme.Silent :=
  silent_of_role (of_decide_eq_true (Bool.and_eq_true_iff.mp spelled).1) other

theorem silent_of_default (role : lexeme.isDefaultOperator = true) : lexeme.Silent := by
  simp only [isDefaultOperator, Bool.and_eq_true, decide_eq_true_eq] at role
  exact silent_of_role role.1 (by decide)

end Lexeme

/-! ## The tally -/

/-- Where the trees have no faults, the variables of the lexemes are those of the trees and of the
lexemes left. -/
structure Tally (trees : List Node) (lexemes left : List Lexeme) : Prop where
  within : left ⊆ lexemes
  even : (∀ lexeme ∈ lexemes, lexeme.Genuine) → trees.flatMap Node.faults = [] →
    spelledNames lexemes = heldNames trees + spelledNames left

namespace Tally

variable {trees more : List Node} {tree : Node} {lexeme : Lexeme}
  {lexemes between left rest : List Lexeme}

theorem refl (lexemes : List Lexeme) : Tally [] lexemes lexemes where
  within := List.Subset.refl _
  even _ _ := (zero_add _).symm

/-- A lexeme that no tree stands for. -/
theorem silent (none : lexeme.Silent) : Tally [] (lexeme :: left) left where
  within := List.subset_cons_self ..
  even genuine _ := by
    rw [spelledNames_cons, none (genuine lexeme List.mem_cons_self)]
    rfl

theorem trans (first : Tally trees lexemes between) (second : Tally more between left) :
    Tally (trees ++ more) lexemes left where
  within := List.Subset.trans second.within first.within
  even genuine sound := by
    rw [List.flatMap_append, List.append_eq_nil_iff] at sound
    have further : ∀ lexeme ∈ between, lexeme.Genuine :=
      fun lexeme member => genuine lexeme (first.within member)
    rw [first.even genuine sound.1, second.even further sound.2, heldNames_append, add_assoc]

/-- Trees that hold the same variables and the same faults have the same tally. -/
theorem congr {others : List Node} (tally : Tally trees lexemes left)
    (faults : others.flatMap Node.faults = trees.flatMap Node.faults)
    (names : heldNames others = heldNames trees) : Tally others lexemes left where
  within := tally.within
  even genuine sound := by
    rw [names]
    exact tally.even genuine (faults ▸ sound)

/-- Where a tree has a fault, nothing is said about its names. -/
theorem faulty (within : left ⊆ lexemes) (faults : trees.flatMap Node.faults ≠ []) :
    Tally trees lexemes left where
  within := within
  even _ sound := absurd sound faults

theorem fault {cause : SyntaxCause} {position : Position} (within : left ⊆ lexemes) :
    Tally [.error ⟨cause, position⟩] lexemes left :=
  faulty within (by simp [Node.faults])

/-- A tree that names no variable itself. -/
theorem node (none : tree.variableName? = none) (sound : tree.isError = false)
    (parts : Tally tree.children lexemes left) : Tally [tree] lexemes left := by
  refine parts.congr ?_ ?_
  · rw [List.flatMap_singleton, Node.faults_eq]
    cases tree <;> first | rfl | contradiction
  · exact heldNames_children tree none

theorem skip (tally : Tally trees lexemes (lexeme :: left)) (none : lexeme.Silent) :
    Tally trees lexemes left := by
  have whole := tally.trans (.silent none)
  rwa [List.append_nil] at whole

theorem skip_head (none : lexeme.Silent) (tally : Tally trees lexemes left) :
    Tally trees (lexeme :: lexemes) left :=
  .trans (.silent none) tally

/-- A tree without parts over a lexeme. -/
theorem leaf (none : tree.variableName? = none) (sound : tree.isError = false)
    (parts : tree.children = []) (quiet : lexeme.Silent) : Tally [tree] (lexeme :: left) left :=
  .node none sound (by rw [parts]; exact .silent quiet)

/-- What is read from lexemes may be followed by more. -/
theorem before (tally : Tally trees lexemes left) (back : List Lexeme) :
    Tally trees (lexemes ++ back) (left ++ back) where
  within := List.append_subset.mpr
    ⟨List.Subset.trans tally.within (List.subset_append_left ..), List.subset_append_right ..⟩
  even genuine sound := by
    have front := tally.even (fun lexeme member => genuine lexeme (List.mem_append_left _ member))
      sound
    rw [spelledNames_append, spelledNames_append, front, add_assoc]

theorem all_before (tally : Tally trees lexemes []) (back : List Lexeme) :
    Tally trees (lexemes ++ back) back :=
  tally.before back

/-- What one of two lists is read from may come behind what the other is read from. -/
theorem swap {front back : List Lexeme} (first : Tally trees back [])
    (second : Tally more front []) : Tally (trees ++ more) (front ++ back) [] where
  within := List.nil_subset _
  even genuine sound := by
    rw [List.flatMap_append, List.append_eq_nil_iff] at sound
    have behind := first.even
      (fun lexeme member => genuine lexeme (List.mem_append_right _ member)) sound.1
    have ahead := second.even
      (fun lexeme member => genuine lexeme (List.mem_append_left _ member)) sound.2
    rw [spelledNames_append, behind, ahead, heldNames_append, spelledNames_nil, add_zero, add_zero, add_zero,
      add_comm]

/-- A group in its brackets. -/
theorem group {opener closer : Lexeme} {inner : List Lexeme}
    (partner : opener.category.closer? = some closer.category) (inside : Tally trees inner []) :
    Tally trees (opener :: (inner ++ closer :: left)) left := by
  have opens : opener.Silent :=
    Lexeme.silent_of_role rfl (by rintro role; rw [role] at partner; contradiction)
  have closes : closer.Silent := by
    refine Lexeme.silent_of_role rfl fun role => ?_
    have closing := Category.isCloser_of_closer? partner
    rw [role] at closing
    contradiction
  exact ((inside.all_before (closer :: left)).skip closes).skip_head opens

/-- What is left over where a tree was to take every lexeme is a fault in its place. -/
theorem finish {parse : Parse Node} (tally : Tally [parse.1] lexemes parse.2) :
    Tally [.finish parse] lexemes [] := by
  rcases parse with ⟨tree, _ | ⟨extra, rest⟩⟩
  · exact tally
  · exact .fault (List.nil_subset _)

end Tally

/-! ## Variables -/

theorem Node.ofSpelling_eq {sigil : Sigil} {spelling : String}
    (spelled : spelling.toList.head? = some sigil.char) :
    Node.ofSpelling sigil spelling = .var sigil (withoutSigil spelling) := by
  obtain ⟨name, same⟩ := List.head?_eq_some_iff.mp spelled
  simp [Node.ofSpelling, withoutSigil, same]

theorem Lexeme.asVar?_kind {lexeme : Lexeme} {holder : Node}
    (spelled : lexeme.asVar? = some holder) :
    ∃ sigil, lexeme.token.kind = .var sigil ∧ holder = .ofSpelling sigil lexeme.text := by
  simp only [asVar?] at spelled
  split at spelled
  · next sigil kind => exact ⟨sigil, kind, (Option.some.inj spelled).symm⟩
  · contradiction

theorem Lexeme.silent_of_asVar? {lexeme : Lexeme} (none : lexeme.asVar? = none) :
    lexeme.Silent :=
  silent_of_kind fun sigil kind => by simp [asVar?, kind] at none

/-- The role of a variable is that of no other token. -/
theorem Token.kind_of_var {token : Token} {previous : Option Category}
    (role : token.categoryAfter previous = .var) : ∃ sigil, token.kind = .var sigil := by
  have other (word : String) : Category.ofWord word ≠ .var := by
    simp only [Category.ofWord]
    repeat' split
    all_goals decide
  rcases token with ⟨kind, text, position⟩
  cases kind with
  | var sigil => exact ⟨sigil, rfl⟩
  | identifier =>
    simp only [categoryAfter] at role
    split at role
    · contradiction
    · exact absurd role (other text)
  | operator =>
    change Category.ofOperator text = .var at role
    simp only [Category.ofOperator] at role
    split at role <;> contradiction
  | _ => contradiction

theorem Sigil.char_of_ofChar? {c : Char} {sigil : Sigil} (spelled : ofChar? c = some sigil) :
    c = sigil.char := by
  simp only [ofChar?] at spelled
  split at spelled
  · obtain rfl := Option.some.inj spelled
    rfl
  · obtain rfl := Option.some.inj spelled
    rfl
  · obtain rfl := Option.some.inj spelled
    rfl
  · contradiction

theorem not_spellsVariable {spelling : String}
    (bare : ∀ sigil : Sigil, spelling.toList.head? ≠ some sigil.char) :
    spellsVariable spelling = false := by
  rw [spellsVariable, Option.isSome_eq_false_iff, Option.isNone_iff_eq_none]
  refine Option.bind_eq_none_iff.mpr fun c first => Option.eq_none_iff_forall_ne_some.mpr ?_
  intro sigil spelled
  exact bare sigil (Sigil.char_of_ofChar? spelled ▸ first)

/-- What a call is made by: a variable or a name. -/
def Lexeme.SpellsMethod (lexeme : Lexeme) : Prop :=
  lexeme.category = .var ∨ lexeme.isWord = true

/-- The spelling of a method tells whether it is a variable. -/
theorem Lexeme.SpellsMethod.variableName? {name : Lexeme} (names : name.SpellsMethod)
    (genuine : name.Genuine) (invocant : Node) (args : List Node) :
    (Node.methodCall invocant name.text args).variableName? = name.token.variableName? := by
  obtain ⟨⟨previous, classified⟩, spelled⟩ := genuine
  have ofVar {sigil : Sigil} (kind : name.token.kind = .var sigil) :
      (Node.methodCall invocant name.text args).variableName? = name.token.variableName? := by
    simp only [Token.Spelled, kind] at spelled
    simp [Node.variableName?, Token.variableName?, kind, spellsVariable, text, spelled,
      Sigil.ofChar?_char]
  rcases names with role | word
  · rw [Lexeme.category_of_classified classified] at role
    obtain ⟨sigil, kind⟩ := Token.kind_of_var role
    exact ofVar kind
  · have kind : name.token.kind = .identifier := of_decide_eq_true word
    simp only [Token.Spelled, kind] at spelled
    rw [Node.variableName?, text, not_spellsVariable spelled, Token.variableName?, kind]
    rfl

namespace Tally

/-- A variable over the lexeme that spells it. -/
theorem asVar? {lexeme : Lexeme} {holder : Node} {left : List Lexeme}
    (spelled : lexeme.asVar? = some holder) : Tally [holder] (lexeme :: left) left where
  within := List.subset_cons_self ..
  even genuine _ := by
    obtain ⟨sigil, kind, rfl⟩ := Lexeme.asVar?_kind spelled
    have sigiled := (genuine lexeme List.mem_cons_self).2
    simp only [Token.Spelled, kind] at sigiled
    rw [Lexeme.text, Node.ofSpelling_eq sigiled, heldNames_singleton, spelledNames_cons, Token.variableName?,
      kind]
    rfl

/-- A call by a name or by a variable. -/
theorem called {invocant : Node} {args : List Node} {name : Lexeme}
    {lexemes rest left : List Lexeme} (first : Tally [invocant] lexemes (name :: rest))
    (names : name.SpellsMethod) (second : Tally args rest left) :
    Tally [.methodCall invocant name.text args] lexemes left where
  within := List.Subset.trans second.within
    (List.Subset.trans (List.subset_cons_self ..) first.within)
  even genuine sound := by
    rw [List.flatMap_singleton, Node.faults_eq, List.append_eq_nil_iff, Node.children,
      List.flatMap_cons, List.append_eq_nil_iff] at sound
    have behind : ∀ lexeme ∈ name :: rest, lexeme.Genuine :=
      fun lexeme member => genuine lexeme (first.within member)
    have called := names.variableName? (behind name List.mem_cons_self) invocant args
    have ahead := first.even genuine (by simpa using sound.2.1)
    have further := second.even
      (fun lexeme member => behind lexeme (List.mem_cons_of_mem _ member)) sound.2.2
    rw [ahead, spelledNames_cons, further, heldNames_singleton (.methodCall ..), called,
      Node.children, heldNames_cons invocant args]
    simp only [add_assoc, add_left_comm]

end Tally

end SigilScript
