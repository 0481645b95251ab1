import SigilScript.Proofs.Grammar.Chain
import SigilScript.Proofs.Grammar.Group
import SigilScript.Proofs.Grouping

/-! # Chains of steps

Behind a scalar stand steps, each an index, a key, arguments, a method or a dereference behind an
arrow. An index or a key may go without its arrow behind another or behind arguments, where it is
read by a production of its own. Either way the step is put around the tree read so far, so a chain
is the fold of its steps over its base, however its arrows are spelled.
-/

namespace SigilScript

/-! ## Steps -/

/-- One step of a chain, without the arrow in front of it. -/
inductive Step where
  | element (index : Group .leftBracket .rightBracket)
  | entry (key : Group .leftBrace .rightBrace)
  | call (args : Group .leftParen .rightParen)
  /-- A method that is named by a word or by a variable. -/
  | method (name : Lexeme) (names : name.NamesMethod)
  | invocation (name : Lexeme) (names : name.NamesMethod) (args : Group .leftParen .rightParen)
  | contents (lexeme star : Lexeme) (sigil : Sigil) (role : lexeme.category = .postfixDerefSigil)
      (kind : lexeme.token.kind = .derefSigil sigil) (all : star.isOperator "*" = true)

/-- What an index is parsed as: a list where it holds a comma, else what is parsed of it alone. -/
def indexOf (anchor : Position) (lexemes : List Lexeme) : Node :=
  if lexemes.isEmpty then .expected .subscript none anchor
  else if hasTopLevel lexemes .comma then .list (elements anchor (segmentsAt .comma lexemes))
  else parseExpression anchor lexemes

/-- What a key is parsed as: a word alone is a string, and all else is an index. -/
def entryOf (anchor : Position) (lexemes : List Lexeme) : Node :=
  match barewordKey? lexemes with
  | some key => .plain key
  | none => indexOf anchor lexemes

namespace Step

/-- The lexemes of a step. -/
def lexemes : Step → List Lexeme
  | .element index => index.lexemes
  | .entry key => key.lexemes
  | .call args => args.lexemes
  | .method name _ => [name]
  | .invocation name _ args => name :: args.lexemes
  | .contents lexeme star .. => [lexeme, star]

/-- A step around a tree, with what is parsed of its own brackets. -/
def wrap (base : Node) : Step → Node
  | .element index => .access .arrayElement base (indexOf index.first.position index.inside)
  | .entry key => .access .hashElement base (entryOf key.first.position key.inside)
  | .call args => .codeCall base (elements args.first.position (segmentsAt .comma args.inside))
  | .method name _ => .methodCall base name.text []
  | .invocation name _ args =>
    .methodCall base name.text (elements args.first.position (segmentsAt .comma args.inside))
  | .contents _ _ sigil .. => .postfixDeref base sigil

/-- Whether a step is an index or a key. -/
def isSubscript : Step → Bool
  | .element _ | .entry _ => true
  | _ => false

/-- Whether an index or a key behind this step may go without its arrow. -/
def sparesArrow : Step → Bool
  | .element _ | .entry _ | .call _ => true
  | _ => false

end Step

/-- The spellings of a chain of steps: every step has its arrow, but for an index or a key where the
step before it spares the arrow. -/
inductive Spells : Bool → List Step → List Lexeme → Prop where
  | nil (spared : Bool) : Spells spared [] []
  | arrow {spared : Bool} {step : Step} {steps : List Step} {arrow : Lexeme}
    {lexemes : List Lexeme} (points : arrow.category = .arrow)
    (further : Spells step.sparesArrow steps lexemes) :
    Spells spared (step :: steps) (arrow :: (step.lexemes ++ lexemes))
  | direct {step : Step} {steps : List Step} {lexemes : List Lexeme}
    (subscript : step.isSubscript = true) (further : Spells step.sparesArrow steps lexemes) :
    Spells true (step :: steps) (step.lexemes ++ lexemes)

/-- A scalar that steps can follow: a variable, or what a scalar's sigil dereferences. -/
inductive ScalarBase : List Lexeme → Node → Prop where
  | var {lexeme : Lexeme} (role : lexeme.category = .var)
    (kind : lexeme.token.kind = .var .scalar) :
    ScalarBase [lexeme] (.ofSpelling .scalar lexeme.text)
  | reference {sigil : Lexeme} {lexemes : List Lexeme} {node : Node}
    (role : sigil.category = .postfixDerefSigil) (kind : sigil.token.kind = .derefSigil .scalar)
    (whole : sigil.text ≠ "$#") (base : ScalarBase lexemes node) :
    ScalarBase (sigil :: lexemes) (.dereference .scalar node)
  | block {sigil : Lexeme} (role : sigil.category = .postfixDerefSigil)
    (kind : sigil.token.kind = .derefSigil .scalar) (whole : sigil.text ≠ "$#")
    (group : Group .leftBrace .rightBrace) :
    ScalarBase (sigil :: group.lexemes)
      (.dereference .scalar (parseExpression group.first.position group.inside))

namespace Grammar

/-! ## One step -/

theorem readSubscript_eq (anchor : Position) (lexemes : List Lexeme) :
    full.readSubscript anchor lexemes = indexOf anchor lexemes := by
  simp only [readSubscript, indexOf, readElements_eq, full_whole, parseExpression_eq]

theorem readIndex_bracket (index : Group .leftBracket .rightBracket) :
    full.readIndex index.first index.inside = indexOf index.first.position index.inside := by
  rw [readIndex, if_pos index.opens, readSubscript_eq]

theorem readIndex_brace (key : Group .leftBrace .rightBrace) :
    full.readIndex key.first key.inside = entryOf key.first.position key.inside := by
  have noBracket : key.first.category ≠ .leftBracket := by simp [key.opens]
  rw [readIndex, if_neg noBracket, readHashKey, readSubscript_eq]
  rfl

/-- A step behind its arrow is one link. -/
theorem link_arrow {arrow : Lexeme} {rest : List Lexeme} (base : Node) (step : Step)
    (points : arrow.category = .arrow) (noGroup : step.sparesArrow = false →
      nextIs .leftParen rest = false) :
    full.Link base (arrow :: (step.lexemes ++ rest)) (step.wrap base) rest := by
  cases step with
  | element index =>
    rw [Step.lexemes, Group.lexemes_append, Step.wrap, ← readIndex_bracket]
    exact .element points index.opens (index.takeGroup rfl rest)
  | entry key =>
    rw [Step.lexemes, Group.lexemes_append, Step.wrap, ← readIndex_brace]
    exact .entry points key.opens (key.takeGroup rfl rest)
  | call args =>
    rw [Step.lexemes, Group.lexemes_append, Step.wrap, ← readElements_eq]
    exact .call points args.opens (args.takeGroup rfl rest)
  | method name names => exact .method points names (noGroup rfl)
  | invocation name names args =>
    rw [Step.lexemes, List.cons_append, Group.lexemes_append, Step.wrap, ← readElements_eq]
    exact .invocation points names args.opens (args.takeGroup rfl rest)
  | contents lexeme star sigil role kind all => exact .contents points role kind all

/-- Behind a step that spares the arrow, an index or a key alone is the same link. -/
theorem link_direct {previous step : Step} (base : Node) (spares : previous.sparesArrow = true)
    (subscript : step.isSubscript = true) (rest : List Lexeme) :
    full.Link (previous.wrap base) (step.lexemes ++ rest) (step.wrap (previous.wrap base)) rest := by
  have accepts : acceptsSubscript (previous.wrap base) = true := by
    cases previous <;> first | rfl | contradiction
  -- What carries no sigil keeps its place as a container.
  have kept (sigil : Sigil) : container sigil (previous.wrap base) = previous.wrap base := by
    cases previous <;> rfl
  have noSlice : takesSlice (previous.wrap base) = false := by cases previous <;> rfl
  cases step with
  | element index =>
    have link : full.Link .. := .subscript (.inl index.opens) accepts (index.takeGroup rfl rest)
    rw [indexed, if_pos index.opens, noSlice, kept, readIndex_bracket] at link
    rw [Step.lexemes, Group.lexemes_append]
    exact link
  | entry key =>
    have noBracket : key.first.category ≠ .leftBracket := by simp [key.opens]
    have link : full.Link .. := .subscript (.inr key.opens) accepts (key.takeGroup rfl rest)
    rw [indexed, if_neg noBracket, noSlice, kept, readIndex_brace] at link
    rw [Step.lexemes, Group.lexemes_append]
    exact link
  | call | method | invocation | contents => contradiction

/-! ## The whole chain -/

/-- Steps that need their arrow begin with no parenthesis. -/
theorem noGroup_of_spells {steps : List Step} {lexemes : List Lexeme}
    (spells : Spells false steps lexemes) : nextIs .leftParen lexemes = false := by
  cases spells with
  | nil => rfl
  | arrow points _ => simp [nextIs, points]

/-- Behind a tree, a chain of steps is read one step after the other. -/
theorem readChain_steps {spared : Bool} {steps : List Step} {lexemes : List Lexeme} {base : Node}
    (spells : Spells spared steps lexemes)
    (behind : spared = true → ∃ inner previous, Step.sparesArrow previous = true ∧
      base = previous.wrap inner) :
    full.readChain base lexemes = (steps.foldl Step.wrap base, []) := by
  induction spells generalizing base with
  | nil => rfl
  | @arrow spared step steps arrow lexemes points further ih =>
    have noGroup (needs : step.sparesArrow = false) : nextIs .leftParen lexemes = false :=
      noGroup_of_spells (needs ▸ further)
    have link := link_arrow base step points noGroup
    rw [link.readChain, full_chain, List.foldl_cons]
    exact ih fun spares => ⟨base, step, spares, rfl⟩
  | @direct step steps lexemes subscript further ih =>
    obtain ⟨inner, previous, spares, rfl⟩ := behind rfl
    have link := link_direct inner spares subscript lexemes
    rw [link.readChain, full_chain, List.foldl_cons]
    exact ih fun spares => ⟨previous.wrap inner, step, spares, rfl⟩

end Grammar

open Grammar

/-- A scalar is one primary, whatever stands behind it. -/
theorem ScalarBase.exists_head {lexemes : List Lexeme} {node : Node}
    (based : ScalarBase lexemes node) : ∃ head tail, lexemes = head :: tail ∧
      (head.category = .var ∨ head.category = .postfixDerefSigil) ∧
      ∀ rest, full.readPrimary head (tail ++ rest) = (node, rest) := by
  induction based with
  | @var lexeme role kind =>
    exact ⟨lexeme, [], rfl, .inl role, fun rest => by simp only [readPrimary, kind]; rfl⟩
  | @reference sigil lexemes node role kind whole base ih =>
    obtain ⟨head, tail, rfl, begins, read⟩ := ih
    refine ⟨sigil, head :: tail, rfl, .inr role, fun rest => ?_⟩
    have noBrace : head.category ≠ .leftBrace := by
      rcases begins with begins | begins <;> simp [begins]
    have names : (head.category = .var || head.category = .postfixDerefSigil) = true := by
      rcases begins with begins | begins <;> simp [begins]
    have target : full.primary head (tail ++ rest) = (node, rest) := by rw [full_primary, read]
    simp only [readPrimary, kind, List.cons_append, readDereference, noBrace, ↓reduceIte, names,
      target, whole]
  | @block sigil role kind whole group =>
    refine ⟨sigil, group.lexemes, rfl, .inr role, fun rest => ?_⟩
    rw [Group.lexemes_append]
    simp only [readPrimary, kind, readDereference, group.opens, ↓reduceIte,
      readGroup_of_taken (group.takeGroup rfl rest), whole, full_whole, parseExpression_eq]

/-- A chain of steps behind a scalar is parsed as the fold of its steps, each around the tree of
those before it with what is parsed of its own brackets, and so it is however its arrows are
spelled. -/
theorem parseExpression_steps {base lexemes : List Lexeme} {node : Node} {steps : List Step}
    (anchor : Position) (based : ScalarBase base node) (spells : Spells false steps lexemes) :
    parseExpression anchor (base ++ lexemes) = steps.foldl Step.wrap node ∧
      ∀ other, Spells false steps other →
        parseExpression anchor (base ++ other) = parseExpression anchor (base ++ lexemes) := by
  obtain ⟨head, tail, rfl, begins, read⟩ := based.exists_head
  have folded (lexemes : List Lexeme) (spells : Spells false steps lexemes) :
      parseExpression anchor (head :: (tail ++ lexemes)) = steps.foldl Step.wrap node := by
    have chain : full.readChain node lexemes = (steps.foldl Step.wrap node, []) :=
      readChain_steps spells nofun
    apply parseExpression_of_operation
    rw [full_operation]
    rcases begins with begins | begins <;>
      simp only [readOperation, readOperand, begins, readAtom, read, chain, readClimb]
  refine ⟨folded lexemes spells, fun other spells' => ?_⟩
  rw [List.cons_append, List.cons_append, folded other spells', folded lexemes spells]

/-- The steps of `->items->[0]->{name}`. -/
def nameOfFirstItem : List Step :=
  [.method ⟨⟨.identifier, "items", ⟨1, 7⟩⟩, .identifier⟩ (.inr ⟨rfl, nofun, nofun, nofun, nofun⟩),
    .element ⟨⟨⟨.openBracket, "[", ⟨1, 14⟩⟩, .leftBracket⟩, [⟨⟨.number, "0", ⟨1, 15⟩⟩, .literal⟩],
      ⟨⟨.closeBracket, "]", ⟨1, 16⟩⟩, .rightBracket⟩, rfl, rfl, rfl, .plain rfl rfl .nil⟩,
    .entry ⟨⟨⟨.openBrace, "\x7b", ⟨1, 17⟩⟩, .leftBrace⟩,
      [⟨⟨.identifier, "name", ⟨1, 18⟩⟩, .identifier⟩],
      ⟨⟨.closeBrace, "\x7d", ⟨1, 22⟩⟩, .rightBrace⟩, rfl, rfl, rfl, .plain rfl rfl .nil⟩]

/-- The key behind an index is read alike without its arrow. -/
theorem parseExpression_steps_name :
    ∃ spelled other : List Lexeme, Spells false nameOfFirstItem spelled ∧
      Spells false nameOfFirstItem other ∧ spelled ≠ other ∧
      parseExpression ⟨1, 1⟩ (⟨⟨.var .scalar, "$obj", ⟨1, 1⟩⟩, .var⟩ :: spelled) =
        .access .hashElement (.access .arrayElement (.methodCall (.var .scalar "obj") "items" [])
          (.number "0")) (.plain "name") ∧
      parseExpression ⟨1, 1⟩ (⟨⟨.var .scalar, "$obj", ⟨1, 1⟩⟩, .var⟩ :: other) =
        parseExpression ⟨1, 1⟩ (⟨⟨.var .scalar, "$obj", ⟨1, 1⟩⟩, .var⟩ :: spelled) := by
  have arrow (position : Position) : (⟨⟨.arrow, "->", position⟩, .arrow⟩ : Lexeme).category =
      .arrow := rfl
  have bare : Spells false nameOfFirstItem _ :=
    .arrow (arrow ⟨1, 5⟩) (.arrow (arrow ⟨1, 12⟩) (.direct rfl (.nil _)))
  have full : Spells false nameOfFirstItem _ :=
    .arrow (arrow ⟨1, 5⟩) (.arrow (arrow ⟨1, 12⟩) (.arrow (arrow ⟨1, 17⟩) (.nil _)))
  have based : ScalarBase [⟨⟨.var .scalar, "$obj", ⟨1, 1⟩⟩, .var⟩] (.var .scalar "obj") :=
    .var rfl rfl
  obtain ⟨folded, same⟩ := parseExpression_steps ⟨1, 1⟩ based bare
  refine ⟨_, _, bare, full, by decide, folded.trans ?_, same _ full⟩
  with_unfolding_all rfl

end SigilScript
