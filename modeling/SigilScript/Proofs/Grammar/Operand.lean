import SigilScript.Proofs.Grammar.Chain
import SigilScript.Proofs.Grammar.Shape
import SigilScript.Proofs.Scan.Closing

/-! # Operands that are chains

An operand that is a chain without faults ends in one of few ways: in a variable, in a group, in the
name of a method, or in an operator that belongs to the chain. A sign behind it is left, so that the
tree of the operand becomes the left side of an operation.
-/

namespace SigilScript

/-- How lexemes end that a subscript may follow: in a variable or in brackets, or in a brace that
stands behind such lexemes or behind what takes a block of its own. -/
inductive Ended : List Lexeme → Prop where
  | value (front : List Lexeme) {last : Lexeme}
    (role : last.category ∈ [.var, .rightParen, .rightBracket]) : Ended (front ++ [last])
  | behind {front block : List Lexeme} (ended : Ended front) (isBlock : IsBlock block) :
    Ended (front ++ block)
  | introduced (front : List Lexeme) {intro : Lexeme} {block : List Lexeme}
    (role : intro.category ∈ [.postfixDerefSigil, .arrow]) (isBlock : IsBlock block) :
    Ended (front ++ intro :: block)

/-- How the lexemes of a chain end: also in the name of a method or in an operator of the chain. -/
inductive EndsChain : List Lexeme → Prop where
  | ended {lexemes : List Lexeme} (ended : Ended lexemes) : EndsChain lexemes
  | name (front : List Lexeme) {last : Lexeme} (role : last.category = .identifier) :
    EndsChain (front ++ [last])
  | operator (front : List Lexeme) {last : Lexeme}
    (role : last.category ∈ [.unaryOperator, .binaryOperator]) : EndsChain (front ++ [last])

/-- A division by a variable: its sign, read behind an operand, and the variable. -/
structure IsDivision (sigil : Sigil) (sign divisor : Lexeme) : Prop where
  role : sign.category = .binaryOperator
  spelled : sign.text = "/"
  plain : sign.isWord = false
  var : divisor.category = .var
  kind : divisor.token.kind = .var sigil

namespace Grammar

/-- What is known of the lexemes up to the end of a tree. -/
structure Trail (node : Node) (front : List Lexeme) : Prop where
  subscript : acceptsSubscript node = true → Ended front
  chained : node.isChained = true → EndsChain front

theorem Trail.of_ended {node : Node} {front : List Lexeme} (ended : Ended front) :
    Trail node front :=
  ⟨fun _ => ended, fun _ => .ended ended⟩

/-- Of a tree that is no chain nothing has to be known. -/
theorem Trail.of_unchained {node : Node} (unchained : node.isChained = false)
    (front : List Lexeme) : Trail node front := by
  constructor
  · intro accepts
    cases node <;> simp [acceptsSubscript, Node.isChained] at accepts unchained
  · intro chained
    rw [unchained] at chained
    contradiction

variable {g : Grammar} {base value : Node} {rest left inner : List Lexeme} {opener lexeme : Lexeme}

/-- Behind a group in parentheses or in brackets. -/
theorem ended_of_taken (opens : opener.category = .leftParen ∨ opener.category = .leftBracket)
    (taken : takeGroup opener rest = (.ok inner, left)) :
    ∃ closer : Lexeme, rest = inner ++ closer :: left ∧
      ∀ front, Ended (front ++ opener :: (inner ++ [closer])) := by
  obtain ⟨closer, partner, rfl⟩ := takeGroup_ok taken
  refine ⟨closer, rfl, fun front => ?_⟩
  rw [append_group]
  apply Ended.value
  rcases opens with opens | opens <;>
    · rw [opens] at partner
      rw [← Option.some.inj partner]
      decide

/-- A word right behind an arrow is a name. -/
theorem category_of_word {front : List Lexeme} {arrow name : Lexeme}
    (reads : Context.start.Reads (front ++ [arrow, name])) (points : arrow.category = .arrow)
    (word : name.isWord = true) : name.category = .identifier := by
  have same : front ++ [arrow, name] = (front ++ [arrow]) ++ [name] := by
    rw [List.append_assoc, List.singleton_append]
  rw [same] at reads
  rw [reads.after_concat.2, reads.split.1.previous_after, points]
  have kind : name.token.kind = .identifier := of_decide_eq_true word
  simp only [Token.categoryAfter, kind]

/-- How the lexemes end behind a link. -/
theorem Link.trail (link : g.Link base rest value left) :
    ∃ taken, rest = taken ++ left ∧ ∀ front, Context.start.Reads (front ++ taken) →
      Trail base front → Trail value (front ++ taken) := by
  have behind (front more : List Lexeme) (first : Lexeme) :
      front ++ first :: more = (front ++ [first]) ++ more := by
    rw [List.append_assoc, List.singleton_append]
  cases link with
  | @subscript opener rest inner left opens accepts taken =>
    rcases opens with opens | opens
    · obtain ⟨closer, rfl, ended⟩ := ended_of_taken (.inr opens) taken
      exact ⟨opener :: (inner ++ [closer]), by simp, fun front _ _ => .of_ended (ended front)⟩
    · obtain ⟨closer, rfl, isBlock⟩ := isBlock_of_taken opens taken
      exact ⟨opener :: (inner ++ [closer]), by simp, fun front _ trail =>
        .of_ended (.behind (trail.subscript accepts) isBlock)⟩
  | @element arrow opener rest inner left points opens taken =>
    obtain ⟨closer, rfl, ended⟩ := ended_of_taken (.inr opens) taken
    refine ⟨arrow :: opener :: (inner ++ [closer]), by simp, fun front _ _ => .of_ended ?_⟩
    rw [behind]
    exact ended _
  | @entry arrow opener rest inner left points opens taken =>
    obtain ⟨closer, rfl, isBlock⟩ := isBlock_of_taken opens taken
    exact ⟨arrow :: opener :: (inner ++ [closer]), by simp, fun front _ _ =>
      .of_ended (.introduced front (by simp [points]) isBlock)⟩
  | @call arrow opener rest inner left points opens taken =>
    obtain ⟨closer, rfl, ended⟩ := ended_of_taken (.inl opens) taken
    refine ⟨arrow :: opener :: (inner ++ [closer]), by simp, fun front _ _ => .of_ended ?_⟩
    rw [behind]
    exact ended _
  | @contents arrow lexeme star sigil left points role kind all =>
    refine ⟨[arrow, lexeme, star], by simp, fun front _ _ => ⟨fun accepts => ?_, fun _ => ?_⟩⟩
    · contradiction
    · rw [behind, behind]
      apply EndsChain.operator
      simp only [Lexeme.isOperator, Bool.and_eq_true, Bool.or_eq_true, decide_eq_true_eq] at all
      rcases all.1 with role | role <;> simp [role]
  | @slice arrow lexeme opener sigil rest inner left points role kind opens taken =>
    rcases opens with opens | opens
    · obtain ⟨closer, rfl, ended⟩ := ended_of_taken (.inr opens) taken
      refine ⟨arrow :: lexeme :: opener :: (inner ++ [closer]), by simp,
        fun front _ _ => .of_ended ?_⟩
      rw [behind, behind]
      exact ended _
    · obtain ⟨closer, rfl, isBlock⟩ := isBlock_of_taken opens taken
      refine ⟨arrow :: lexeme :: opener :: (inner ++ [closer]), by simp,
        fun front _ _ => .of_ended ?_⟩
      rw [behind]
      exact .introduced _ (by simp [role]) isBlock
  | @method arrow name left points names noGroup =>
    refine ⟨[arrow, name], by simp, fun front reads _ => ⟨fun accepts => ?_, fun _ => ?_⟩⟩
    · contradiction
    · rcases names with role | ⟨word, -⟩
      · rw [behind]
        exact .ended (.value _ (by simp [role]))
      · have role := category_of_word reads points word
        rw [behind]
        exact .name _ role
  | @invocation arrow name opener rest inner left points names opens taken =>
    obtain ⟨closer, rfl, ended⟩ := ended_of_taken (.inl opens) taken
    refine ⟨arrow :: name :: opener :: (inner ++ [closer]), by simp,
      fun front _ _ => .of_ended ?_⟩
    rw [behind, behind]
    exact ended _
  | @increment op left role steps place =>
    refine ⟨[op], by simp, fun front _ _ => ⟨fun accepts => ?_, fun _ => ?_⟩⟩
    · contradiction
    · exact .operator front (by simp [role])

/-- How the lexemes end behind a chain without faults. -/
theorem trail_of_chain {base value : Node} {rest left : List Lexeme}
    (read : full.chain base rest = (value, left)) (sound : value.faults = []) :
    ∃ taken, rest = taken ++ left ∧ ∀ front, Context.start.Reads (front ++ taken) →
      Trail base front → Trail value (front ++ taken) := by
  rw [full_chain] at read
  cases grows full base rest with
  | stop stops =>
    have same := stops [] (.inl rfl)
    rw [List.append_nil, read] at same
    obtain ⟨rfl, rfl⟩ := Prod.mk.inj same
    exact ⟨[], rfl, fun front _ trail => by rwa [List.append_nil]⟩
  | @link middle between link =>
    have shorter := link.length_lt
    rw [link.readChain] at read
    obtain ⟨taken, rfl, first⟩ := link.trail
    obtain ⟨taken', rfl, second⟩ := trail_of_chain read sound
    refine ⟨taken ++ taken', by rw [List.append_assoc], fun front reads trail => ?_⟩
    rw [← List.append_assoc] at reads ⊢
    exact second _ reads (first front reads.split.1 trail)
  | fault faulty shorter reads =>
    rw [reads] at read
    have kept := congrArg (fun parse : Parse Node => parse.1.faults) read
    exact absurd (faults_of_chain (kept.trans sound)) faulty
termination_by rest.length

/-! ## Primaries -/

/-- What a sigil makes of the tree behind it: the sigil of a last index stays an operator. -/
def dereferenced (lexeme : Lexeme) (sigil : Sigil) (target : Node) : Node :=
  if lexeme.text = "$#" then .leading "$#" target else .dereference sigil target

/-- The primaries whose tree is a chain: a variable, what a sigil dereferences, or a group in
parentheses. -/
inductive Root (g : Grammar) : Lexeme → List Lexeme → Node → List Lexeme → Prop where
  | var {lexeme : Lexeme} {sigil : Sigil} (kind : lexeme.token.kind = .var sigil)
    (role : lexeme.category = .var) (left : List Lexeme) :
    Root g lexeme left (.ofSpelling sigil lexeme.text) left
  | block {lexeme opener : Lexeme} {sigil : Sigil} {rest inner left : List Lexeme}
    (kind : lexeme.token.kind = .derefSigil sigil) (role : lexeme.category = .postfixDerefSigil)
    (opens : opener.category = .leftBrace) (taken : takeGroup opener rest = (.ok inner, left)) :
    Root g lexeme (opener :: rest) (dereferenced lexeme sigil (g.whole opener.position inner)) left
  | sigil {lexeme next : Lexeme} {sigil : Sigil} {rest left : List Lexeme} {target : Node}
    (kind : lexeme.token.kind = .derefSigil sigil)
    (shape : next.category = .var ∨ next.category = .postfixDerefSigil)
    (root : Root g next rest target left) :
    Root g lexeme (next :: rest) (dereferenced lexeme sigil target) left
  | group {lexeme : Lexeme} {rest inner left : List Lexeme} {value : Node}
    (kind : lexeme.token.kind = .openParen) (opens : lexeme.category = .leftParen)
    (taken : takeGroup lexeme rest = (.ok inner, left))
    (read : g.readParenthesized lexeme rest = (value, left)) : Root g lexeme rest value left

namespace Root

theorem primary {lexeme : Lexeme} (root : full.Root lexeme rest value left) :
    full.primary lexeme rest = (value, left) := by
  induction root with
  | var kind => simp only [full_primary, readPrimary, kind]
  | @block lexeme opener sigil rest inner left kind role opens taken =>
    simp only [full_primary, readPrimary, kind, readDereference, opens, ↓reduceIte,
      readGroup_of_taken taken]
    rfl
  | @sigil lexeme next sigil rest left target kind shape root ih =>
    have noBrace : ¬ next.category = .leftBrace := by
      rcases shape with shape | shape <;> rw [shape] <;> decide
    have shape' : (next.category = .var || next.category = .postfixDerefSigil) = true := by
      simpa using shape
    rw [full_primary]
    simp only [readPrimary, kind, readDereference, if_neg noBrace, if_pos shape', ih]
    rfl
  | group kind opens taken read =>
    rw [full_primary]
    simp only [readPrimary, kind, opens, read]

theorem append {lexeme : Lexeme} (root : g.Root lexeme rest value left) (behind : List Lexeme) :
    g.Root lexeme (rest ++ behind) value (left ++ behind) := by
  induction root with
  | var kind role => exact .var kind role _
  | block kind role opens taken => exact .block kind role opens (takeGroup_append taken behind)
  | sigil kind shape _ ih => exact .sigil kind shape ih
  | group kind opens taken read =>
    refine .group kind opens (takeGroup_append taken behind) ?_
    rw [readParenthesized, readGroup_of_taken taken] at read
    rw [readParenthesized, readGroup_of_taken (takeGroup_append taken behind),
      ← (Prod.mk.inj read).1]

/-- How the lexemes end behind a root. -/
theorem ended {lexeme : Lexeme} (root : g.Root lexeme rest value left) :
    ∃ taken, rest = taken ++ left ∧ ∀ front, Ended (front ++ lexeme :: taken) := by
  induction root with
  | var kind role => exact ⟨[], rfl, fun front => .value front (by simp [role])⟩
  | @block lexeme opener sigil rest inner left kind role opens taken =>
    obtain ⟨closer, rfl, isBlock⟩ := isBlock_of_taken opens taken
    exact ⟨opener :: (inner ++ [closer]), by simp, fun front =>
      .introduced front (by simp [role]) isBlock⟩
  | @sigil lexeme next sigil rest left target kind shape root ih =>
    obtain ⟨taken, rfl, ended⟩ := ih
    refine ⟨next :: taken, rfl, fun front => ?_⟩
    have same : front ++ lexeme :: next :: taken = (front ++ [lexeme]) ++ next :: taken := by
      rw [List.append_assoc, List.singleton_append]
    rw [same]
    exact ended _
  | group kind opens taken read =>
    obtain ⟨closer, rfl, ended⟩ := ended_of_taken (.inl opens) taken
    exact ⟨_ ++ [closer], by simp, ended⟩

end Root

/-- A role that only one kind of token plays. -/
theorem kind_of_leftParen {token : Token} {previous : Option Category}
    (opens : token.categoryAfter previous = .leftParen) : token.kind = .openParen := by
  by_cases spelled : token.kind = .identifier ∨ token.kind = .operator
  · have plain := (Token.categoryAfter_plain spelled previous).1
    rw [opens] at plain
    contradiction
  · rcases token with ⟨kind, text, position⟩
    cases kind with
    | openParen => rfl
    | identifier => exact absurd (.inl rfl) spelled
    | operator => exact absurd (.inr rfl) spelled
    | _ => simp [Token.categoryAfter, Token.category] at opens

theorem readGroup_unchained {inside : List Lexeme → Node}
    (unchained : ∀ lexemes, (inside lexemes).isChained = false) :
    (readGroup opener rest inside .error).1.isChained = false := by
  simp only [readGroup]
  split
  · exact unchained _
  · rfl

theorem readJump_unchained (jump : Jump) (rest : List Lexeme) :
    (readJump jump rest).1.isChained = false := by
  rcases rest with _ | ⟨label, rest⟩
  · rfl
  · simp only [readJump]
    split <;> rfl

theorem readKeyword_unchained (keyword : Lexeme) (rest : List Lexeme) :
    (g.readKeyword keyword rest).1.isChained = false := by
  simp only [readKeyword]
  split
  · split <;> rfl
  · split <;> rfl
  · split
    · rfl
    · split <;> rfl
  · split
    · rfl
    · simp only [readRequire]
      split <;> rfl
  · rfl
  · rfl
  · rfl
  · rfl
  · exact readJump_unchained _ rest
  · exact readJump_unchained _ rest
  · exact readJump_unchained _ rest
  · rfl

theorem readWord_unchained (name : Lexeme) (rest : List Lexeme) :
    (g.readWord name rest).1.isChained = false := by
  simp only [readWord]
  split
  · rfl
  · split
    · rfl
    · split
      · simp only [readBuiltin]
        split
        · rfl
        · split <;> rfl
      · split <;> rfl

theorem readDeclaration_unchained (lexeme : Lexeme) (rest : List Lexeme) :
    (g.readDeclaration lexeme rest).1.isChained = false := by
  rcases rest with _ | ⟨next, rest⟩
  · rfl
  · simp only [readDeclaration]
    split <;> rfl

theorem faults_dereferenced (lexeme : Lexeme) (sigil : Sigil) (target : Node) :
    (dereferenced lexeme sigil target).faults = target.faults := by
  simp only [dereferenced]
  split <;> rfl

/-- What a sigil dereferences without a fault is a block, or another root. -/
theorem root_of_dereference {lexeme : Lexeme} {sigil : Sigil} {rest left : List Lexeme}
    {value : Node} (kind : lexeme.token.kind = .derefSigil sigil)
    (role : lexeme.category = .postfixDerefSigil)
    (read : full.readDereference sigil lexeme rest = (value, left)) (sound : value.faults = [])
    (target : ∀ next after target, rest = next :: after →
      (next.category = .var ∨ next.category = .postfixDerefSigil) →
      full.primary next after = (target, left) → target.faults = [] →
      full.Root next after target left) : full.Root lexeme rest value left := by
  have faulty {wanted : Construct} {found : Option Lexeme} {anchor : Position}
      {after : List Lexeme} (read : (Node.expected wanted found anchor, after) = (value, left)) :
      False := by
    obtain ⟨rfl, -⟩ := Prod.mk.inj read
    exact faults_expected wanted found anchor sound
  rcases rest with _ | ⟨next, after⟩
  · exact (faulty read).elim
  · simp only [readDereference] at read
    split at read
    · next opens =>
      rcases taken : takeGroup next after with ⟨fault | inner, behind⟩
      · simp only [readGroup, taken] at read
        obtain ⟨rfl, -⟩ := Prod.mk.inj read
        exact absurd ((faults_dereferenced lexeme sigil (.error fault)).symm.trans sound)
          (List.cons_ne_nil fault [])
      · simp only [readGroup, taken] at read
        obtain ⟨rfl, rfl⟩ := Prod.mk.inj read
        exact .block kind role opens taken
    · split at read
      · next shape =>
        obtain ⟨rfl, behind⟩ := Prod.mk.inj read
        have shape : next.category = .var ∨ next.category = .postfixDerefSigil := by
          simpa using shape
        have kept : (full.primary next after).1.faults = [] :=
          (faults_dereferenced lexeme sigil _).symm.trans sound
        exact .sigil kind shape
          (target next after _ rfl shape (Prod.ext rfl behind) kept)
      · exact (faulty read).elim

/-- A primary without faults whose tree is a chain is a root. -/
theorem root_of_primary {lexeme : Lexeme} {rest left : List Lexeme} {value : Node}
    (classified : ∀ other ∈ lexeme :: rest, ∃ previous, other = other.token.classify previous)
    (read : full.primary lexeme rest = (value, left)) (sound : value.faults = [])
    (leads : (lexeme.category = .var ∨ lexeme.category = .postfixDerefSigil) ∨
      value.isChained = true) : full.Root lexeme rest value left := by
  obtain ⟨previous, same⟩ := classified lexeme (List.mem_cons_self ..)
  have role : lexeme.category = lexeme.token.categoryAfter previous :=
    congrArg Lexeme.category same
  -- What begins with neither a variable nor a sigil and makes no chain is left out.
  have other {category : Category} {parse : Parse Node} (begins : lexeme.category = category)
      (noVar : category ≠ .var) (noSigil : category ≠ .postfixDerefSigil)
      (unchained : parse.1.isChained = false) (read : parse = (value, left)) :
      full.Root lexeme rest value left := by
    rw [read] at unchained
    rw [begins, unchained] at leads
    simp [noVar, noSigil] at leads
  have literal {parse : Parse Node} (begins : lexeme.token.categoryAfter previous = .literal)
      (unchained : parse.1.isChained = false) (read : parse = (value, left)) :
      full.Root lexeme rest value left :=
    other (role.trans begins) (by decide) (by decide) unchained read
  rw [full_primary, readPrimary] at read
  split at read
  · next kind => exact literal (by simp only [Token.categoryAfter, Token.category, kind]) rfl read
  · next kind => exact literal (by simp only [Token.categoryAfter, Token.category, kind]) rfl read
  · next kind => exact literal (by simp only [Token.categoryAfter, Token.category, kind]) rfl read
  · next kind => exact literal (by simp only [Token.categoryAfter, Token.category, kind]) rfl read
  · next sigil kind =>
    obtain ⟨rfl, rfl⟩ := Prod.mk.inj read
    exact .var kind (by simp only [role, Token.categoryAfter, Token.category, kind]) rest
  · next sigil kind =>
    refine root_of_dereference kind
      (by simp only [role, Token.categoryAfter, Token.category, kind]) read sound ?_
    rintro next after target rfl shape read sound
    exact root_of_primary (fun other member => classified other (List.mem_cons_of_mem _ member))
      read sound (.inl shape)
  · split at read
    · next begins => exact other begins (by decide) (by decide) rfl read
    · next begins =>
      exact other begins (by decide) (by decide) (readGroup_unchained fun _ => rfl) read
    · next begins =>
      exact other begins (by decide) (by decide) (readGroup_unchained fun _ => rfl) read
    · next begins =>
      rcases readGroup_cases read with ⟨inner, taken, -⟩ | ⟨fault, -, rfl⟩
      · exact .group (kind_of_leftParen (role.symm.trans begins)) begins taken read
      · exact absurd sound (List.cons_ne_nil fault [])
    · next begins =>
      exact other begins (by decide) (by decide) (readDeclaration_unchained lexeme rest) read
    · next begins =>
      exact other begins (by decide) (by decide) (readKeyword_unchained lexeme rest) read
    · next begins =>
      exact other begins (by decide) (by decide) (readWord_unchained lexeme rest) read
    · next begins =>
      exact other begins (by decide) (by decide) (readWord_unchained lexeme rest) read
    · obtain ⟨rfl, -⟩ := Prod.mk.inj read
      exact absurd sound (List.cons_ne_nil _ [])
termination_by rest.length

/-! ## Operands -/

variable {behind : List Lexeme}

/-- With a sign behind it, a primary with a chain is read as it is without. -/
theorem chained_append (signed : Signed behind) {between : List Lexeme}
    (classified : ∀ other ∈ lexeme :: rest, ∃ previous, other = other.token.classify previous)
    (first : full.primary lexeme rest = (base, between))
    (further : full.chain base between = (value, left)) (sound : value.faults = [])
    (chained : value.isChained = true) :
    full.primary lexeme (rest ++ behind) = (base, between ++ behind) ∧
      full.chain base (between ++ behind) = (value, left ++ behind) := by
  have kept : (full.chain base between).1.faults = [] := by rwa [further]
  have chain := chain_append signed kept
  rw [further] at chain
  refine ⟨?_, chain⟩
  by_cases leads : base.isChained = true
  · exact ((root_of_primary classified first (faults_of_chain kept) (.inr leads)).append
      behind).primary
  · -- The chain is not its own primary, so that the primary has left something.
    have nonempty : (full.primary lexeme rest).2 ≠ [] := by
      rw [first]
      rintro rfl
      rw [full_chain] at further
      obtain ⟨rfl, -⟩ := Prod.mk.inj further
      exact leads chained
    have settled := (steady_full signed (rest.length + 1)).primary lexeme (Nat.lt_succ_self _)
      nonempty
    rwa [first] at settled

/-- How the lexemes end behind a primary with a chain. -/
theorem chained_ends {between : List Lexeme}
    (classified : ∀ other ∈ lexeme :: rest, ∃ previous, other = other.token.classify previous)
    (first : full.primary lexeme rest = (base, between))
    (further : full.chain base between = (value, left)) (sound : value.faults = [])
    (chained : value.isChained = true) :
    ∃ taken, rest = taken ++ left ∧ ∀ front, Context.start.Reads (front ++ lexeme :: taken) →
      EndsChain (front ++ lexeme :: taken) := by
  have kept : (full.chain base between).1.faults = [] := by rwa [further]
  have begins : ∃ taken, rest = taken ++ between ∧
      ∀ front, Trail base (front ++ lexeme :: taken) := by
    by_cases leads : base.isChained = true
    · obtain ⟨taken, same, ended⟩ :=
        (root_of_primary classified first (faults_of_chain kept) (.inr leads)).ended
      exact ⟨taken, same, fun front => .of_ended (ended front)⟩
    · have suffix := consumes_full.primary lexeme rest
      rw [first] at suffix
      obtain ⟨taken, same⟩ := suffix
      exact ⟨taken, same.symm, fun front => .of_unchained (Bool.eq_false_iff.mpr leads) _⟩
  obtain ⟨taken, rfl, trail⟩ := begins
  obtain ⟨taken', rfl, grown⟩ := trail_of_chain further sound
  refine ⟨taken ++ taken', (List.append_assoc ..).symm, fun front reads => ?_⟩
  have same : front ++ lexeme :: (taken ++ taken') = (front ++ lexeme :: taken) ++ taken' := by
    simp only [List.append_assoc, List.cons_append]
  rw [same] at reads ⊢
  exact (grown _ reads (trail front)).chained chained

/-- What begins with no operator is a primary with its chain. -/
theorem readOperand_atom (noUnary : lexeme.category ≠ .unaryOperator)
    (noSign : lexeme.category = .binaryOperator → lexeme.text ≠ "+" ∧ lexeme.text ≠ "-")
    (rest : List Lexeme) : full.readOperand lexeme rest =
      full.chain (full.primary lexeme rest).1 (full.primary lexeme rest).2 := by
  have atom : full.readOperand lexeme rest = full.readAtom lexeme rest := by
    rcases role : lexeme.category
    case unaryOperator => contradiction
    case binaryOperator =>
      obtain ⟨noPlus, noMinus⟩ := noSign role
      simp [readOperand, role, noPlus]
    all_goals simp only [readOperand, role]
  rw [atom, full_chain, full_primary]
  rfl

/-- How an operand whose tree is a chain is read, whatever stands behind it: as a primary with its
chain, which a plus sign before a brace may only announce. -/
theorem operand_cases (read : full.readOperand lexeme rest = (value, left))
    (chained : value.isChained = true) :
    (∀ behind, full.readOperand lexeme (rest ++ behind) =
      full.chain (full.primary lexeme (rest ++ behind)).1
        (full.primary lexeme (rest ++ behind)).2) ∨
    ∃ next after, rest = next :: after ∧
      ∀ behind, full.readOperand lexeme (rest ++ behind) =
        full.chain (full.primary next (after ++ behind)).1
          (full.primary next (after ++ behind)).2 := by
  have leading {op : String} {operand : Node} {after : List Lexeme}
      (read : (Node.leading op operand, after) = (value, left)) : False := by
    obtain ⟨rfl, -⟩ := Prod.mk.inj read
    contradiction
  by_cases unary : lexeme.category = .unaryOperator
  · simp only [readOperand, unary] at read
    split at read
    · exact (leading read).elim
    · exact (leading read).elim
  · by_cases binary : lexeme.category = .binaryOperator
    · by_cases minus : lexeme.text = "-"
      · simp only [readOperand, binary, minus] at read
        exact (leading read).elim
      · by_cases plus : lexeme.text = "+"
        · rcases rest with _ | ⟨next, after⟩
          · simp only [readOperand, binary, plus] at read
            exact (leading read).elim
          · by_cases opens : next.category = .leftBrace
            · refine .inr ⟨next, after, rfl, fun behind => ?_⟩
              simp only [List.cons_append, readOperand, binary, plus, opens, ↓reduceIte]
            · simp only [readOperand, binary, plus, if_neg opens] at read
              exact (leading read).elim
        · exact .inl fun behind => readOperand_atom unary (fun _ => ⟨plus, minus⟩) _
    · exact .inl fun behind => readOperand_atom unary (fun role => absurd role binary) _

/-- With a sign behind it, an operand that is a chain is read as it is without. -/
theorem operand_append (signed : Signed behind)
    (classified : ∀ other ∈ lexeme :: rest, ∃ previous, other = other.token.classify previous)
    (read : full.readOperand lexeme rest = (value, left)) (sound : value.faults = [])
    (chained : value.isChained = true) :
    full.readOperand lexeme (rest ++ behind) = (value, left ++ behind) := by
  rcases operand_cases read chained with reads | ⟨next, after, rfl, reads⟩
  · have alone := reads []
    rw [List.append_nil, read] at alone
    obtain ⟨first, further⟩ := chained_append signed classified rfl alone.symm sound chained
    rw [reads, first, further]
  · have alone := reads []
    rw [List.append_nil, List.append_nil, read] at alone
    obtain ⟨first, further⟩ := chained_append signed
      (fun other member => classified other (List.mem_cons_of_mem _ member)) rfl alone.symm sound
      chained
    rw [reads, first, further]

/-- How the lexemes end behind an operand that is a chain. -/
theorem operand_ends
    (classified : ∀ other ∈ lexeme :: rest, ∃ previous, other = other.token.classify previous)
    (read : full.readOperand lexeme rest = (value, [])) (sound : value.faults = [])
    (chained : value.isChained = true) {front : List Lexeme}
    (reads : Context.start.Reads (front ++ lexeme :: rest)) :
    EndsChain (front ++ lexeme :: rest) := by
  rcases operand_cases read chained with same | ⟨next, after, rfl, same⟩
  · have alone := same []
    rw [List.append_nil, read] at alone
    obtain ⟨taken, rfl, ends⟩ := chained_ends classified rfl alone.symm sound chained
    rw [List.append_nil] at reads ⊢
    exact ends front reads
  · have alone := same []
    rw [List.append_nil, List.append_nil, read] at alone
    obtain ⟨taken, rfl, ends⟩ := chained_ends
      (fun other member => classified other (List.mem_cons_of_mem _ member)) rfl alone.symm sound
      chained
    have same : front ++ lexeme :: next :: (taken ++ []) =
        (front ++ [lexeme]) ++ next :: taken := by
      simp only [List.append_assoc, List.cons_append, List.nil_append, List.append_nil]
    rw [same] at reads ⊢
    exact ends _ reads

/-! ## Operations -/

theorem binary_unchained (op : String) (left right : Node) :
    (Node.binary op left right).isChained = false := by
  simp only [Node.binary]
  split
  · rfl
  · split <;> rfl

/-- What climbing makes is joined by an operator, unless it makes nothing. -/
theorem climb_kept {keep : Node → Bool}
    (noBinary : ∀ op left right, keep (.binary op left right) = false)
    (noTernary : ∀ condition whenTrue whenFalse, keep (.ternary condition whenTrue whenFalse) = false)
    {level : Nat} {node value : Node} {rest left : List Lexeme}
    (read : full.climb level node rest = (value, left)) (kept : keep value = true) :
    value = node ∧ left = rest := by
  have stopped (read : (node, rest) = (value, left)) : value = node ∧ left = rest :=
    ⟨(Prod.mk.inj read).1.symm, (Prod.mk.inj read).2.symm⟩
  rw [full_climb] at read
  rcases same : rest with _ | ⟨next, after⟩
  · rw [same] at read stopped
    exact stopped read
  · rw [same] at read stopped
    simp only [readClimb] at read
    split at read
    · split at read
      · exact stopped read
      · have shorter : (full.readTernary node next after).2.length < rest.length := by
          rw [same]
          exact Nat.lt_succ_of_le (consumes_full.readTernary node next after).length_le
        obtain ⟨rfl, -⟩ := climb_kept noBinary noTernary read kept
        simp only [readTernary] at kept
        split at kept
        · exact absurd (kept.symm.trans (noTernary _ _ _)) Bool.noConfusion
        · exact absurd (kept.symm.trans (noTernary _ _ _)) Bool.noConfusion
    · split at read
      · exact stopped read
      · next binding found =>
        have shorter : (full.readRight next binding.rightLevel after).2.length < rest.length := by
          rw [same]
          exact Nat.lt_succ_of_le (consumes_full.readRight next _ after).length_le
        obtain ⟨rfl, -⟩ := climb_kept noBinary noTernary read kept
        exact absurd (kept.symm.trans (noBinary _ _ _)) Bool.noConfusion
    · exact stopped read
termination_by rest.length

/-- What climbing makes is no chain, unless it makes nothing. -/
theorem climb_chained {level : Nat} {node value : Node} {rest left : List Lexeme}
    (read : full.climb level node rest = (value, left)) (chained : value.isChained = true) :
    value = node ∧ left = rest :=
  climb_kept binary_unchained (fun _ _ _ => rfl) read chained

theorem finish_unchained {node : Node} (unchained : node.isChained = false)
    (rest : List Lexeme) : (Node.finish (node, rest)).isChained = false := by
  cases rest with
  | nil => exact unchained
  | cons extra rest => rfl

/-- A whole that is a chain is one operand. -/
theorem whole_chained {anchor : Position} {lexemes : List Lexeme}
    (chained : (full.readWhole anchor lexemes).isChained = true) :
    ∃ lexeme rest, lexemes = lexeme :: rest ∧
      full.readOperand lexeme rest = (full.readWhole anchor lexemes, []) := by
  rcases lexemes with _ | ⟨lexeme, rest⟩
  · contradiction
  · refine ⟨lexeme, rest, rfl, ?_⟩
    rcases operand : full.readOperand lexeme rest with ⟨node, between⟩
    rcases read : full.readClimb Level.lowest node between with ⟨value, left⟩
    simp only [readWhole, readOperation, operand, read] at chained ⊢
    by_cases comma : nextIs .comma left = true
    · rw [if_pos comma, finish_unchained rfl] at chained
      contradiction
    · rw [if_neg comma] at chained ⊢
      cases left with
      | nil =>
        rw [← full_climb] at read
        obtain ⟨rfl, rfl⟩ := climb_chained read chained
        rfl
      | cons extra left => contradiction

/-- A whole that is a chain is the left side of a division behind it. -/
theorem whole_divided {anchor : Position} {lexemes : List Lexeme} {sign divisor : Lexeme}
    {sigil : Sigil}
    (classified : ∀ other ∈ lexemes, ∃ previous, other = other.token.classify previous)
    (chained : (full.readWhole anchor lexemes).isChained = true)
    (sound : (full.readWhole anchor lexemes).faults = [])
    (division : IsDivision sigil sign divisor) :
    full.readWhole anchor (lexemes ++ [sign, divisor]) =
      .binaryOp "/" (full.readWhole anchor lexemes) (.ofSpelling sigil divisor.text) := by
  obtain ⟨lexeme, rest, rfl, read⟩ := whole_chained chained
  have signed : Signed [sign, divisor] := .sign division.role division.plain [divisor]
  have operand := operand_append signed classified read sound chained
  have right (level : Nat) :
      full.operation level divisor [] = (.ofSpelling sigil divisor.text, []) := by
    rw [full_operation]
    simp only [readOperation, readOperand, division.var, readAtom, readPrimary, division.kind,
      readChain, readClimb]
  generalize full.readWhole anchor (lexeme :: rest) = value at operand ⊢
  have climbed : full.readClimb Level.lowest value [sign, divisor] =
      (.binaryOp "/" value (.ofSpelling sigil divisor.text), []) := by
    have binds : ((binding? "/").filter fun binding => Level.lowest ≤ binding.level) =
        some ⟨16, .left⟩ := by decide
    simp only [readClimb, division.role, division.spelled, binds, readRight, right, full_climb]
    rfl
  simp only [List.cons_append, readWhole, readOperation, operand, List.nil_append, climbed]
  rfl

end Grammar

end SigilScript
