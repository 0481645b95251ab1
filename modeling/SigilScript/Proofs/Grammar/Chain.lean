import SigilScript.Proofs.Grammar.Settled

/-! # Chains of postfix parts

A chain grows link by link, each around the tree before it. A link without a fault has its end
behind its last lexeme, so that lexemes behind it change nothing, even where it leaves nothing.
-/

namespace SigilScript

/-- Whether a tree is a variable, or what a sigil before it or a postfix part behind it makes of
another tree. -/
def Node.isChained : Node → Bool
  | .var .. | .access .. | .dereference .. | .postfixDeref .. | .postfixSlice .. | .codeCall ..
  | .methodCall .. => true
  | .unaryOp _ _ trailing => trailing
  | _ => false

/-- Whether a lexeme behind an arrow names a method. -/
def Lexeme.NamesMethod (lexeme : Lexeme) : Prop :=
  lexeme.category = .var ∨ lexeme.isWord = true ∧ lexeme.category ≠ .leftBracket ∧
    lexeme.category ≠ .leftBrace ∧ lexeme.category ≠ .leftParen ∧
      lexeme.category ≠ .postfixDerefSigil

namespace Grammar

/-- One link of a chain: what a tree becomes with the lexemes right behind it, and what is left. -/
inductive Link (g : Grammar) (base : Node) : List Lexeme → Node → List Lexeme → Prop where
  | subscript {opener : Lexeme} {rest inner left : List Lexeme}
    (opens : opener.category = .leftBracket ∨ opener.category = .leftBrace)
    (accepts : acceptsSubscript base = true) (taken : takeGroup opener rest = (.ok inner, left)) :
    Link g base (opener :: rest) (indexed base opener (g.readIndex opener inner)) left
  | element {arrow opener : Lexeme} {rest inner left : List Lexeme}
    (points : arrow.category = .arrow) (opens : opener.category = .leftBracket)
    (taken : takeGroup opener rest = (.ok inner, left)) :
    Link g base (arrow :: opener :: rest)
      (.access .arrayElement base (g.readIndex opener inner)) left
  | entry {arrow opener : Lexeme} {rest inner left : List Lexeme}
    (points : arrow.category = .arrow) (opens : opener.category = .leftBrace)
    (taken : takeGroup opener rest = (.ok inner, left)) :
    Link g base (arrow :: opener :: rest) (.access .hashElement base (g.readIndex opener inner))
      left
  | call {arrow opener : Lexeme} {rest inner left : List Lexeme}
    (points : arrow.category = .arrow) (opens : opener.category = .leftParen)
    (taken : takeGroup opener rest = (.ok inner, left)) :
    Link g base (arrow :: opener :: rest)
      (.codeCall base (g.readElements opener.position inner)) left
  | contents {arrow lexeme star : Lexeme} {sigil : Sigil} {left : List Lexeme}
    (points : arrow.category = .arrow) (role : lexeme.category = .postfixDerefSigil)
    (kind : lexeme.token.kind = .derefSigil sigil) (all : star.isOperator "*" = true) :
    Link g base (arrow :: lexeme :: star :: left) (.postfixDeref base sigil) left
  | slice {arrow lexeme opener : Lexeme} {sigil : Sigil} {rest inner left : List Lexeme}
    (points : arrow.category = .arrow) (role : lexeme.category = .postfixDerefSigil)
    (kind : lexeme.token.kind = .derefSigil sigil)
    (opens : opener.category = .leftBracket ∨ opener.category = .leftBrace)
    (taken : takeGroup opener rest = (.ok inner, left)) :
    Link g base (arrow :: lexeme :: opener :: rest)
      (.postfixSlice base sigil (g.readIndex opener inner)) left
  | method {arrow name : Lexeme} {left : List Lexeme} (points : arrow.category = .arrow)
    (names : name.NamesMethod) (noGroup : nextIs .leftParen left = false) :
    Link g base (arrow :: name :: left) (.methodCall base name.text []) left
  | invocation {arrow name opener : Lexeme} {rest inner left : List Lexeme}
    (points : arrow.category = .arrow) (names : name.NamesMethod)
    (opens : opener.category = .leftParen) (taken : takeGroup opener rest = (.ok inner, left)) :
    Link g base (arrow :: name :: opener :: rest)
      (.methodCall base name.text (g.readElements opener.position inner)) left
  | increment {op : Lexeme} {left : List Lexeme} (role : op.category = .unaryOperator)
    (steps : (op.text = "++" || op.text = "--") = true) (place : isPlace base = true) :
    Link g base (op :: left) (.trailing op.text base) left

variable {g : Grammar} {base value : Node} {rest left behind inner : List Lexeme}
  {opener name arrow : Lexeme}

theorem readGroup_of_taken {α : Type} (taken : takeGroup opener rest = (.ok inner, left))
    (inside : List Lexeme → α) (unclosed : SyntaxFault → α) :
    readGroup opener rest inside unclosed = (inside inner, left) := by
  rw [readGroup, taken]

theorem readArrow_of_names (names : name.NamesMethod) :
    g.readArrow base arrow (name :: rest) = g.readMethod base name rest := by
  rcases names with role | ⟨word, noBracket, noBrace, noParen, noSigil⟩
  · simp only [readArrow, role]
  · have kind : name.token.kind = .identifier := of_decide_eq_true word
    rcases name with ⟨⟨_, text, position⟩, role⟩
    obtain rfl : _ = TokenKind.identifier := kind
    cases role <;> first | rfl | contradiction

namespace Link

theorem readChain (link : g.Link base rest value left) :
    g.readChain base rest = g.chain value left := by
  cases link with
  | subscript opens accepts taken =>
    rcases opens with opens | opens <;>
      simp only [Grammar.readChain, opens, accepts, ↓reduceIte, readDirectSubscript,
        readGroup_of_taken taken]
  | element points opens taken =>
    simp only [Grammar.readChain, points, readArrow, opens, readGroup_of_taken taken]
  | entry points opens taken =>
    simp only [Grammar.readChain, points, readArrow, opens, readGroup_of_taken taken]
  | call points opens taken =>
    simp only [Grammar.readChain, points, readArrow, opens, readGroup_of_taken taken]
  | contents points role kind all =>
    simp only [Grammar.readChain, points, readArrow, role, kind, readPostfixDeref, all, ↓reduceIte]
  | @slice arrow lexeme opener sigil rest inner left points role kind opens taken =>
    have other : opener.isOperator "*" = false := by
      rcases opens with opens | opens <;> simp [Lexeme.isOperator, opens]
    rcases opens with opens | opens <;>
      simp [Grammar.readChain, points, readArrow, role, kind, readPostfixDeref, other, opens,
        readGroup_of_taken taken]
  | @method arrow name left points names noGroup =>
    simp only [Grammar.readChain, points, readArrow_of_names names, readMethod]
    rcases left with _ | ⟨next, left⟩
    · rfl
    · have plain : ¬ next.category = .leftParen := by simpa [nextIs] using noGroup
      simp only [readMethodArguments, if_neg plain]
  | invocation points names opens taken =>
    simp only [Grammar.readChain, points, readArrow_of_names names, readMethod,
      readMethodArguments, opens, ↓reduceIte, readGroupElements, readGroup_of_taken taken]
  | increment role steps place =>
    simp only [Grammar.readChain, role, steps, place, Bool.and_self, ↓reduceIte]

/-- Lexemes behind a link are left. -/
theorem append (link : g.Link base rest value left) (signed : Signed behind) :
    g.Link base (rest ++ behind) value (left ++ behind) := by
  cases link with
  | subscript opens accepts taken => exact .subscript opens accepts (takeGroup_append taken behind)
  | element points opens taken => exact .element points opens (takeGroup_append taken behind)
  | entry points opens taken => exact .entry points opens (takeGroup_append taken behind)
  | call points opens taken => exact .call points opens (takeGroup_append taken behind)
  | contents points role kind all => exact .contents points role kind all
  | slice points role kind opens taken =>
    exact .slice points role kind opens (takeGroup_append taken behind)
  | @method arrow name _ points names noGroup =>
    refine .method points names ?_
    rcases left with _ | ⟨next, left⟩
    · exact signed.nextIs (by decide)
    · exact noGroup
  | invocation points names opens taken =>
    exact .invocation points names opens (takeGroup_append taken behind)
  | increment role steps place => exact .increment role steps place

theorem faults_container (sigil : Sigil) (node : Node) :
    (container sigil node).faults = node.faults := by
  cases node <;> rfl

theorem faults_indexed (base : Node) (opener : Lexeme) (index : Node) :
    (indexed base opener index).faults = base.faults ++ index.faults := by
  simp only [indexed]
  split
  · split
    · rfl
    · rw [Node.faults, faults_container]
  · split <;> rw [Node.faults, faults_container]

/-- A link keeps the faults of the tree that it is around. -/
theorem faults_base (link : g.Link base rest value left) (sound : value.faults = []) :
    base.faults = [] := by
  cases link with
  | subscript opens accepts taken =>
    rw [faults_indexed] at sound
    exact (List.append_eq_nil_iff.mp sound).1
  | element | entry | call | slice | method | invocation =>
    rw [Node.faults] at sound
    exact (List.append_eq_nil_iff.mp sound).1
  | contents => exact sound
  | increment => exact sound

theorem length_lt (link : g.Link base rest value left) : left.length < rest.length := by
  have group {opener : Lexeme} {rest inner : List Lexeme}
      (taken : takeGroup opener rest = (.ok inner, left)) : left.length ≤ rest.length := by
    have suffix := (takeGroup_suffix opener rest).length_le
    rwa [taken] at suffix
  cases link with
  | contents | method | increment => simp only [List.length_cons]; omega
  | subscript _ _ taken | element _ _ taken | entry _ _ taken | call _ _ taken
  | slice _ _ _ _ taken | invocation _ _ _ taken =>
    have := group taken
    simp only [List.length_cons]
    omega

end Link

/-- How reading a chain goes on: it stops, whatever stands behind; a link follows; or a link
follows that is a fault. -/
inductive Grows (g : Grammar) (base : Node) (rest : List Lexeme) : Prop where
  | stop (stops : ∀ behind, (behind = [] ∨ Signed behind) →
      g.readChain base (rest ++ behind) = (base, rest ++ behind)) : Grows g base rest
  | link {value : Node} {left : List Lexeme} (link : g.Link base rest value left) :
    Grows g base rest
  | fault {value : Node} {left : List Lexeme} (faulty : value.faults ≠ [])
    (shorter : left.length < rest.length) (reads : g.readChain base rest = g.chain value left) :
    Grows g base rest

theorem faults_expected (wanted : Construct) (found : Option Lexeme) (anchor : Position) :
    (Node.expected wanted found anchor).faults ≠ [] :=
  List.cons_ne_nil _ []

theorem faults_readGroup {inside : List Lexeme → Node} {fault : SyntaxFault}
    (open_ : takeGroup opener rest = (.error fault, left)) :
    (readGroup opener rest inside .error).1.faults ≠ [] := by
  rw [readGroup, open_]
  exact List.cons_ne_nil fault []

/-- A method is called with the group behind its name, if one follows. -/
theorem readMethod_cases (points : arrow.category = .arrow) (names : name.NamesMethod) :
    (∃ value left, g.Link base (arrow :: name :: rest) value left) ∨
      (g.readMethod base name rest).1.faults ≠ [] := by
  rcases rest with _ | ⟨opener, rest⟩
  · exact .inl ⟨_, _, .method points names rfl⟩
  · by_cases opens : opener.category = .leftParen
    · rcases taken : takeGroup opener rest with ⟨fault | inner, left⟩
      · right
        simp [readMethod, readMethodArguments, opens, readGroupElements, readGroup, taken,
          Node.faults, Node.faultsOfAll]
      · exact .inl ⟨_, _, .invocation points names opens taken⟩
    · exact .inl ⟨_, _, .method points names (by simp [nextIs, opens])⟩

/-- Behind an arrow stands a link, or a fault. -/
theorem readArrow_cases (points : arrow.category = .arrow) :
    (∃ value left, g.Link base (arrow :: rest) value left) ∨
      (g.readArrow base arrow rest).1.faults ≠ [] := by
  rcases rest with _ | ⟨next, rest⟩
  · exact .inr (faults_expected _ _ _)
  · rw [readArrow]
    split
    · next opens =>
      rcases taken : takeGroup next rest with ⟨fault | inner, left⟩
      · exact .inr (faults_readGroup taken)
      · exact .inl ⟨_, _, .element points opens taken⟩
    · next opens =>
      rcases taken : takeGroup next rest with ⟨fault | inner, left⟩
      · exact .inr (faults_readGroup taken)
      · exact .inl ⟨_, _, .entry points opens taken⟩
    · next opens =>
      rcases taken : takeGroup next rest with ⟨fault | inner, left⟩
      · exact .inr (faults_readGroup taken)
      · exact .inl ⟨_, _, .call points opens taken⟩
    · next sigil role kind =>
      rcases rest with _ | ⟨star, rest⟩
      · exact .inr (faults_expected _ _ _)
      · rw [readPostfixDeref]
        split
        · next all => exact .inl ⟨_, _, .contents points role kind all⟩
        · split
          · next opens =>
            simp only [Bool.or_eq_true, decide_eq_true_eq] at opens
            rcases taken : takeGroup star rest with ⟨fault | inner, left⟩
            · exact .inr (faults_readGroup taken)
            · exact .inl ⟨_, _, .slice points role kind opens taken⟩
          · exact .inr (faults_expected _ _ _)
    · exact .inr (faults_expected _ _ _)
    · next role => exact readMethod_cases points (.inl role)
    · next kind noBracket noBrace noParen noSigil noVar =>
      exact readMethod_cases points
        (.inr ⟨decide_eq_true kind, noBracket, noBrace, noParen, noSigil⟩)
    · exact .inr (faults_expected _ _ _)

theorem grows (g : Grammar) (base : Node) (rest : List Lexeme) : g.Grows base rest := by
  rcases rest with _ | ⟨next, rest⟩
  · refine .stop fun behind ends => ?_
    rcases ends with rfl | ends
    · rfl
    · cases ends with
      | sign role => simp only [List.nil_append, readChain, role]
  · have group (opens : next.category = .leftBracket ∨ next.category = .leftBrace) :
        g.Grows base (next :: rest) := by
      by_cases accepts : acceptsSubscript base = true
      · rcases taken : takeGroup next rest with ⟨fault | inner, left⟩
        · have shorter := (takeGroup_suffix next rest).length_le
          have faulty : (Node.error fault).faults ≠ [] := List.cons_ne_nil fault []
          rw [taken] at shorter
          refine .fault faulty (Nat.lt_succ_of_le shorter) ?_
          rcases opens with opens | opens <;>
            simp only [readChain, opens, accepts, ↓reduceIte, readDirectSubscript, readGroup, taken]
        · exact .link (.subscript opens accepts taken)
      · refine .stop fun behind _ => ?_
        rcases opens with opens | opens <;>
          simp only [List.cons_append, readChain, opens, if_neg accepts]
    rcases role : next.category
    case leftBracket => exact group (.inl role)
    case leftBrace => exact group (.inr role)
    case arrow =>
      rcases readArrow_cases role with ⟨value, left, link⟩ | faulty
      · exact .link link
      · have shorter := (Consumes.readArrow (g := g) base next rest).length_le
        refine .fault faulty (Nat.lt_succ_of_le shorter) ?_
        simp only [readChain, role]
    case unaryOperator =>
      by_cases steps : (next.text = "++" || next.text = "--") = true
      · by_cases place : isPlace base = true
        · exact .link (.increment role steps place)
        · refine .stop fun behind _ => ?_
          simp only [List.cons_append, readChain, role, steps, place, Bool.and_false,
            Bool.false_eq_true, ↓reduceIte]
      · refine .stop fun behind _ => ?_
        simp only [List.cons_append, readChain, role, steps, Bool.false_and, Bool.false_eq_true,
          ↓reduceIte]
    all_goals exact .stop fun behind _ => by simp only [List.cons_append, readChain, role]

/-- A chain keeps the faults of the tree that it is around. -/
theorem faults_of_chain {base : Node} {rest : List Lexeme}
    (sound : (full.chain base rest).1.faults = []) : base.faults = [] := by
  rw [full_chain] at sound
  cases grows full base rest with
  | stop stops =>
    have same := stops [] (.inl rfl)
    rw [List.append_nil] at same
    rwa [same] at sound
  | link link =>
    have shorter := link.length_lt
    rw [link.readChain] at sound
    exact link.faults_base (faults_of_chain sound)
  | fault faulty shorter reads =>
    rw [reads] at sound
    exact absurd (faults_of_chain sound) faulty
termination_by rest.length

/-- A chain without faults ends where it ends: a sign behind it is left. -/
theorem chain_append (signed : Signed behind) {base : Node} {rest : List Lexeme}
    (sound : (full.chain base rest).1.faults = []) :
    full.chain base (rest ++ behind) = (full.chain base rest).before behind := by
  rw [full_chain] at sound ⊢
  cases grows full base rest with
  | stop stops =>
    have same := stops [] (.inl rfl)
    rw [List.append_nil] at same
    rw [same, stops behind (.inr signed)]
    rfl
  | link link =>
    have shorter := link.length_lt
    rw [link.readChain] at sound
    rw [link.readChain, (link.append signed).readChain, chain_append signed sound]
  | fault faulty shorter reads =>
    rw [reads] at sound
    exact absurd (faults_of_chain sound) faulty
termination_by rest.length

end Grammar

end SigilScript
