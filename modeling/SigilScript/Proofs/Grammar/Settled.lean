import SigilScript.Proofs.Grammar.Complete

/-! # Lexemes behind what is left

A production that leaves something has seen enough: lexemes behind what it leaves are left as well
and change nothing of what it reads. Only two productions look past the lexemes they were given, for
an operand behind a filehandle and for a name behind the colon of an attribute; so what stands
behind begins with an operator here.
-/

namespace SigilScript

/-- Lexemes that begin with a binary operator that is no word. -/
inductive Signed : List Lexeme → Prop where
  | sign {lexeme : Lexeme} (role : lexeme.category = .binaryOperator)
    (plain : lexeme.isWord = false) (rest : List Lexeme) : Signed (lexeme :: rest)

theorem Signed.nextIs {behind : List Lexeme} (signed : Signed behind) {category : Category}
    (other : category ≠ .binaryOperator) : nextIs category behind = false := by
  cases signed with
  | sign role => simp [SigilScript.nextIs, role, other.symm]

/-- What was read, with further lexemes behind those that were left. -/
def Parse.before {α : Type} (behind : List Lexeme) (parse : Parse α) : Parse α :=
  (parse.1, parse.2 ++ behind)

/-- One reading is another one with further lexemes behind, if the other one left something. -/
def Parse.Settled {α : Type} (behind : List Lexeme) (parse further : Parse α) : Prop :=
  parse.2 ≠ [] → further = parse.before behind

variable {rest behind : List Lexeme}

theorem nextIs_append (category : Category) (nonempty : rest ≠ []) :
    nextIs category (rest ++ behind) = nextIs category rest := by
  rcases rest with _ | ⟨next, rest⟩
  · contradiction
  · rfl

/-! ## Searches -/

/-- A group that has its end has the same end with more behind it. -/
theorem takeGroup_append {opener : Lexeme} {inner after : List Lexeme}
    (taken : takeGroup opener rest = (.ok inner, after)) (behind : List Lexeme) :
    takeGroup opener (rest ++ behind) = (.ok inner, after ++ behind) := by
  obtain ⟨closer, found, partner, cut⟩ := takeGroup_cut taken
  exact takeGroup_of_cut partner
    ((isSearch_cutAtPartner? opener.category closer).append 1 cut behind)

/-! ## Reading without the grammar -/

theorem readGroup_settled {α : Type} (opener : Lexeme) (inside : List Lexeme → α)
    (unclosed : SyntaxFault → α) :
    (readGroup opener rest inside unclosed).Settled behind
      (readGroup opener (rest ++ behind) inside unclosed) := by
  intro left
  simp only [readGroup] at left ⊢
  rcases taken : takeGroup opener rest with ⟨fault | inner, after⟩
  · -- A group without end takes everything, unless its opener is none.
    simp only [taken] at left
    rcases (takeGroup_uncut taken).2 with ⟨plain, rfl⟩ | ⟨-, -, -, rfl⟩
    · rw [takeGroup_of_none plain] at taken ⊢
      rw [← Except.error.inj (Prod.mk.inj taken).1]
      rfl
    · exact absurd rfl left
  · rw [takeGroup_append taken]
    rfl

theorem readAttributeGroup_settled :
    (readAttributeGroup rest).Settled behind (readAttributeGroup (rest ++ behind)) := by
  rcases rest with _ | ⟨opener, rest⟩
  · exact fun left => absurd rfl left
  · simp only [List.cons_append, readAttributeGroup]
    split
    · exact readGroup_settled opener _ _
    · exact fun _ => rfl

/-- No attribute takes fewer than two lexemes, so that there are never more attributes to be read
than lexemes. -/
theorem readAttributesUpTo_settled (signed : Signed behind) {count more : Nat}
    (enough : rest.length ≤ count) (enough' : rest.length ≤ more) :
    (readAttributesUpTo count rest).Settled behind
      (readAttributesUpTo more (rest ++ behind)) := by
  induction count generalizing rest more with
  | zero =>
    obtain rfl := List.eq_nil_of_length_eq_zero (Nat.le_zero.mp enough)
    exact fun left => absurd rfl left
  | succ count ih =>
    rcases rest with _ | ⟨colon, _ | ⟨word, rest⟩⟩
    · exact fun left => absurd rfl left
    · obtain ⟨more, rfl⟩ : ∃ fewer, more = fewer + 1 := ⟨more - 1, by simp at enough'; omega⟩
      cases signed with
      | sign role plain =>
        intro left
        simp only [List.cons_append, List.nil_append, readAttributesUpTo, plain, Bool.and_false,
          Bool.false_eq_true, ↓reduceIte]
        rfl
    · obtain ⟨more, rfl⟩ : ∃ fewer, more = fewer + 1 := ⟨more - 1, by simp at enough'; omega⟩
      intro left
      simp only [List.cons_append, readAttributesUpTo] at left ⊢
      split
      · next marked =>
        rw [if_pos marked] at left
        have inner := readAttributeGroup_suffix rest
        have nonempty := (readAttributesUpTo_suffix count _).ne_nil left
        rw [readAttributeGroup_settled nonempty]
        simp only [List.length_cons] at enough enough'
        have short := inner.length_le
        simp only [Parse.before]
        rw [ih (by omega) (by omega) left]
        rfl
      · rfl

theorem readAttributes_settled (signed : Signed behind) :
    (readAttributes rest).Settled behind (readAttributes (rest ++ behind)) :=
  readAttributesUpTo_settled signed (Nat.le_refl _) (by simp)

namespace Grammar

theorem readJump_settled (jump : Jump) :
    (readJump jump rest).Settled behind (readJump jump (rest ++ behind)) := by
  rcases rest with _ | ⟨label, rest⟩
  · exact fun left => absurd rfl left
  · intro left
    simp only [List.cons_append, readJump]
    split <;> rfl

/-- What lexemes behind the given ones change in none of the productions, on lists of fewer than `n`
lexemes. -/
structure Steady (behind : List Lexeme) (n : Nat) (g : Grammar) : Prop where
  signed : Signed behind
  operation : ∀ level lexeme {rest}, rest.length < n →
    (g.operation level lexeme rest).Settled behind (g.operation level lexeme (rest ++ behind))
  climb : ∀ level node {rest}, rest.length < n →
    (g.climb level node rest).Settled behind (g.climb level node (rest ++ behind))
  operand : ∀ lexeme {rest}, rest.length < n →
    (g.operand lexeme rest).Settled behind (g.operand lexeme (rest ++ behind))
  primary : ∀ lexeme {rest}, rest.length < n →
    (g.primary lexeme rest).Settled behind (g.primary lexeme (rest ++ behind))
  chain : ∀ node {rest}, rest.length < n →
    (g.chain node rest).Settled behind (g.chain node (rest ++ behind))
  items : ∀ {rest}, rest.length < n →
    (g.items rest).Settled behind (g.items (rest ++ behind))
  arguments : ∀ {rest}, rest.length < n →
    (g.arguments rest).Settled behind (g.arguments (rest ++ behind))
  attributes : ∀ {rest}, (g.attributes rest).Settled behind (g.attributes (rest ++ behind))

namespace Steady

variable {g : Grammar} {n : Nat}

/-! ## Lists and blocks -/

theorem readGroupElements (opener : Lexeme) :
    (g.readGroupElements opener rest).Settled behind
      (g.readGroupElements opener (rest ++ behind)) :=
  readGroup_settled opener _ _

theorem readMethodArguments :
    (g.readMethodArguments rest).Settled behind (g.readMethodArguments (rest ++ behind)) := by
  rcases rest with _ | ⟨opener, rest⟩
  · exact fun left => absurd rfl left
  · simp only [List.cons_append, Grammar.readMethodArguments]
    split
    · exact readGroupElements opener
    · exact fun _ => rfl

/-- The place of a missing block does not matter where a block is read. -/
theorem readBlock (finish finish' : Position) :
    (g.readBlock finish rest).Settled behind (g.readBlock finish' (rest ++ behind)) := by
  rcases rest with _ | ⟨opener, rest⟩
  · exact fun left => absurd rfl left
  · simp only [List.cons_append, Grammar.readBlock]
    split
    · exact readGroup_settled opener _ _
    · exact fun left => absurd rfl left

theorem readParameters :
    (g.readParameters rest).Settled behind (g.readParameters (rest ++ behind)) := by
  rcases rest with _ | ⟨opener, rest⟩
  · exact fun left => absurd rfl left
  · simp only [List.cons_append, Grammar.readParameters]
    split
    · exact readGroup_settled opener _ _
    · exact fun _ => rfl

theorem readParenthesized (opener : Lexeme) :
    (g.readParenthesized opener rest).Settled behind
      (g.readParenthesized opener (rest ++ behind)) :=
  readGroup_settled opener _ _

theorem readLeadingBlock (name : Lexeme) :
    (g.readLeadingBlock name rest).Settled behind (g.readLeadingBlock name (rest ++ behind)) := by
  intro left
  have nonempty := (Consumes.readLeadingBlock name rest).ne_nil left
  have settled : (g.readBlock (lastPosition name rest) rest).Settled behind
      (g.readBlock (lastPosition name (rest ++ behind)) (rest ++ behind)) := readBlock _ _
  unfold Grammar.readLeadingBlock at left ⊢
  rw [nextIs_append _ nonempty]
  split
  · next opens =>
    rw [if_pos opens] at left
    rcases read : g.readBlock (lastPosition name rest) rest with ⟨body, after⟩
    have later : after ≠ [] := by
      rintro rfl
      simp [read, nextIs] at left
    rw [read] at settled
    simp only [settled later, Parse.before, nextIs_append _ later,
      List.tail_append_of_ne_nil later]
    split <;> rfl
  · rfl

variable (s : g.Steady behind n)
include s

theorem readArguments (c : g.Consumes) (short : rest.length ≤ n) :
    (g.readArguments rest).Settled behind (g.readArguments (rest ++ behind)) := by
  rcases rest with _ | ⟨lexeme, rest⟩
  · exact fun left => absurd rfl left
  · intro left
    have first := s.operation Level.assignment lexeme short
    have taken := (c.operation Level.assignment lexeme rest).length_le
    rcases read : g.operation Level.assignment lexeme rest with ⟨argument, after⟩
    rw [read] at first taken
    simp only [List.cons_append, Grammar.readArguments] at left ⊢
    by_cases starts : lexeme.startsOperand = true
    · simp only [if_pos starts, read] at left ⊢
      have nonempty : after ≠ [] := by
        rintro rfl
        simp [nextIs] at left
      simp only [first nonempty, Parse.before, nextIs_append _ nonempty]
      by_cases comma : nextIs .comma after = true
      · simp only [if_pos comma] at left ⊢
        have nonempty' := (c.arguments _).ne_nil left
        have dropped : (after.dropWhile fun next => next.category = .comma).length ≤
          after.length := (List.dropWhile_suffix _).length_le
        have same : (after ++ behind).dropWhile (fun next => next.category = .comma) =
            after.dropWhile (fun next => next.category = .comma) ++ behind := by
          rw [List.dropWhile_append, if_neg]
          rwa [List.isEmpty_iff]
        have further := s.arguments (Nat.lt_of_le_of_lt (Nat.le_trans dropped taken) short) left
        simp only [same, further, Parse.before]
      · simp only [if_neg comma]
    · simp only [if_neg starts]
      rfl

theorem readCallArguments (c : g.Consumes) (short : rest.length ≤ n) :
    (g.readCallArguments rest).Settled behind (g.readCallArguments (rest ++ behind)) := by
  rcases rest with _ | ⟨opener, rest⟩
  · exact fun left => absurd rfl left
  · simp only [List.cons_append, Grammar.readCallArguments]
    split
    · exact readGroupElements opener
    · exact s.readArguments c short

/-! ## Operands -/

theorem readRight (op : Lexeme) (level : Nat) (short : rest.length ≤ n) :
    (g.readRight op level rest).Settled behind (g.readRight op level (rest ++ behind)) := by
  rcases rest with _ | ⟨lexeme, rest⟩
  · exact fun left => absurd rfl left
  · exact s.operation level lexeme short

theorem readDereference (sigil : Sigil) (lexeme : Lexeme) (short : rest.length ≤ n) :
    (g.readDereference sigil lexeme rest).Settled behind
      (g.readDereference sigil lexeme (rest ++ behind)) := by
  rcases rest with _ | ⟨next, rest⟩
  · exact fun left => absurd rfl left
  · intro left
    simp only [List.cons_append, Grammar.readDereference] at left ⊢
    split
    · next opens =>
      rw [if_pos opens] at left
      rw [readGroup_settled next _ _ left]
      rfl
    · next noBrace =>
      rw [if_neg noBrace] at left
      split
      · next shape =>
        rw [if_pos shape] at left
        rw [s.primary next short left]
        rfl
      · rfl

theorem readDeclaration (c : g.Consumes) (lexeme : Lexeme) (short : rest.length ≤ n) :
    (g.readDeclaration lexeme rest).Settled behind
      (g.readDeclaration lexeme (rest ++ behind)) := by
  rcases rest with _ | ⟨next, rest⟩
  · exact fun left => absurd rfl left
  · intro left
    simp only [List.cons_append, Grammar.readDeclaration] at left ⊢
    split
    · next opens =>
      rw [if_pos opens] at left
      rw [readGroupElements next left]
      rfl
    · next noParen =>
      rw [if_neg noParen] at left
      have first := s.primary next short
      have taken := (c.primary next rest).length_le
      rcases read : g.primary next rest with ⟨primary, after⟩
      rw [read] at first taken
      have chained := s.chain primary (Nat.lt_of_le_of_lt taken short)
      simp only [read] at left
      simp only [first ((c.chain _ _).ne_nil left), read, Parse.before, chained left]

theorem readFilehandle :
    (g.readFilehandle rest).Settled behind (g.readFilehandle (rest ++ behind)) := by
  rcases rest with _ | ⟨first, rest⟩
  · exact fun left => absurd rfl left
  · simp only [List.cons_append, Grammar.readFilehandle]
    split
    · exact readGroup_settled first _ _
    · intro left
      have nonempty : rest ≠ [] := by
        rintro rfl
        exact absurd rfl left
      rw [List.head?_append_of_ne_nil _ nonempty]
      split <;> rfl
    · intro left
      rcases rest with _ | ⟨next, rest⟩
      · rw [List.nil_append, s.signed.nextIs (by decide), s.signed.nextIs (by decide)]
        rfl
      · have nonempty : next :: rest ≠ [] := List.cons_ne_nil next rest
        rw [nextIs_append _ nonempty, nextIs_append _ nonempty]
        split <;> rfl
    · exact fun _ => rfl

theorem readAnonymousSub (c : g.Consumes) (keyword : Lexeme) :
    (g.readAnonymousSub keyword rest).Settled behind
      (g.readAnonymousSub keyword (rest ++ behind)) := by
  intro left
  change (g.readBlock _ (g.attributes (g.readParameters rest).2).2).2 ≠ [] at left
  have marked := (Consumes.readBlock _ _).ne_nil left
  have params := (c.attributes _).ne_nil marked
  simp only [Grammar.readAnonymousSub, readParameters params, Parse.before,
    s.attributes marked, readBlock _ _ left]

theorem readCall (c : g.Consumes) (name : String) (short : rest.length ≤ n) :
    (g.readCall name rest).Settled behind (g.readCall name (rest ++ behind)) := by
  intro left
  simp only [Grammar.readCall, s.readCallArguments c short left]
  rfl

theorem readRequire (c : g.Consumes) (keyword : Lexeme) (short : rest.length ≤ n) :
    (g.readRequire keyword rest).Settled behind (g.readRequire keyword (rest ++ behind)) := by
  intro left
  have nonempty := (c.readRequire keyword rest).ne_nil left
  have operand := s.readRight keyword Level.namedUnary short
  unfold Grammar.readRequire at left ⊢
  rw [List.head?_append_of_ne_nil _ nonempty]
  split
  · rw [List.tail_append_of_ne_nil nonempty]
    rfl
  · next noWord =>
    simp only [noWord] at left
    simp only [operand left, Parse.before]

theorem readOutput (c : g.Consumes) (output : Output) (short : rest.length ≤ n) :
    (g.readOutput output rest).Settled behind (g.readOutput output (rest ++ behind)) := by
  intro left
  have handle : (g.readFilehandle rest).Settled behind _ := s.readFilehandle
  have taken := (Consumes.readFilehandle (g := g) rest).length_le
  unfold Grammar.readOutput at left ⊢
  rcases read : g.readFilehandle rest with ⟨filehandle, after⟩
  rw [read] at handle taken
  have args := s.readArguments c (Nat.le_trans taken short)
  simp only [read] at left
  simp only [handle ((c.readArguments _).ne_nil left), Parse.before, args left]

theorem readAlarm (c : g.Consumes) (alarm : Alarm) (short : rest.length ≤ n) :
    (g.readAlarm alarm rest).Settled behind (g.readAlarm alarm (rest ++ behind)) := by
  intro left
  have args := s.readCallArguments c short left
  simp only [Grammar.readAlarm, args, Parse.before]

theorem readKeyword (c : g.Consumes) (keyword : Lexeme) (short : rest.length ≤ n) :
    (g.readKeyword keyword rest).Settled behind (g.readKeyword keyword (rest ++ behind)) := by
  intro left
  have nonempty := (c.readKeyword keyword rest).ne_nil left
  revert left
  change Parse.Settled _ _ _
  unfold Grammar.readKeyword
  rw [nextIs_append _ nonempty, nextIs_append _ nonempty]
  split
  · split
    · exact s.readCall c _ short
    · exact s.readOutput c _ short
  · split
    · exact s.readCall c _ short
    · exact s.readOutput c _ short
  · split
    · exact s.readCall c _ short
    · split
      · intro left
        have body : (g.readBlock (lastPosition keyword rest) rest).Settled behind
          (g.readBlock (lastPosition keyword (rest ++ behind)) _) := readBlock _ _
        simp only [body left, Parse.before]
      · intro left
        simp only [s.readRight keyword _ short left, Parse.before]
  · split
    · exact s.readCall c _ short
    · exact s.readRequire c keyword short
  · exact s.readAnonymousSub c keyword
  · exact s.readAlarm c _ short
  · exact s.readAlarm c _ short
  · intro left
    simp only [s.readArguments c short left, Parse.before]
  · exact readJump_settled _
  · exact readJump_settled _
  · exact readJump_settled _
  · exact fun _ => rfl

theorem readNamedOperand (short : rest.length ≤ n) :
    (g.readNamedOperand rest).Settled behind (g.readNamedOperand (rest ++ behind)) := by
  rcases rest with _ | ⟨lexeme, rest⟩
  · exact fun left => absurd rfl left
  · simp only [List.cons_append, Grammar.readNamedOperand]
    split
    · intro left
      have operand := s.operation Level.namedUnary lexeme short left
      simp only [operand, Parse.before]
    · exact fun _ => rfl

theorem readBuiltin (c : g.Consumes) (name : Lexeme) (short : rest.length ≤ n) :
    (g.readBuiltin name rest).Settled behind (g.readBuiltin name (rest ++ behind)) := by
  unfold Grammar.readBuiltin
  split
  · exact fun _ => rfl
  · split
    · intro left
      simp only [s.readNamedOperand short left, Parse.before]
    · intro left
      have block : (g.readLeadingBlock name rest).Settled behind _ := readLeadingBlock name
      have taken := (Consumes.readLeadingBlock (g := g) name rest).length_le
      rcases read : g.readLeadingBlock name rest with ⟨body, after⟩
      rw [read] at block taken
      have args := s.readArguments c (Nat.le_trans taken short)
      simp only [read] at left
      simp only [block ((c.readArguments _).ne_nil left), Parse.before, args left]

theorem readWord (c : g.Consumes) (name : Lexeme) (short : rest.length ≤ n) :
    (g.readWord name rest).Settled behind (g.readWord name (rest ++ behind)) := by
  intro left
  have nonempty := (c.readWord name rest).ne_nil left
  revert left
  change Parse.Settled _ _ _
  unfold Grammar.readWord
  rw [List.head?_append_of_ne_nil _ nonempty, nextIs_append _ nonempty, nextIs_append _ nonempty,
    nextIs_append _ nonempty, nextIs_append _ nonempty]
  split
  · exact fun _ => rfl
  · split
    · exact s.readCall c _ short
    · split
      · exact s.readBuiltin c name short
      · split
        · intro left
          simp only [s.readArguments c short left, Parse.before]
        · exact fun _ => rfl

theorem readPrimary (c : g.Consumes) (lexeme : Lexeme) (short : rest.length ≤ n) :
    (g.readPrimary lexeme rest).Settled behind (g.readPrimary lexeme (rest ++ behind)) := by
  unfold Grammar.readPrimary
  split
  · exact fun _ => rfl
  · exact fun _ => rfl
  · exact fun _ => rfl
  · exact fun _ => rfl
  · exact fun _ => rfl
  · exact s.readDereference _ lexeme short
  · split
    · exact fun _ => rfl
    · exact readGroup_settled lexeme _ _
    · exact readGroup_settled lexeme _ _
    · exact readParenthesized lexeme
    · exact s.readDeclaration c lexeme short
    · exact s.readKeyword c lexeme short
    · exact s.readWord c lexeme short
    · exact s.readWord c lexeme short
    · exact fun _ => rfl

/-! ## Chains -/

omit s in
theorem readDirectSubscript (base : Node) (opener : Lexeme) :
    (g.readDirectSubscript base opener rest).Settled behind
      (g.readDirectSubscript base opener (rest ++ behind)) :=
  readGroup_settled opener _ _

omit s in
theorem readPostfixDeref (base : Node) (lexeme : Lexeme) (sigil : Sigil) :
    (g.readPostfixDeref base lexeme sigil rest).Settled behind
      (g.readPostfixDeref base lexeme sigil (rest ++ behind)) := by
  rcases rest with _ | ⟨next, rest⟩
  · exact fun left => absurd rfl left
  · simp only [List.cons_append, Grammar.readPostfixDeref]
    split
    · exact fun _ => rfl
    · split
      · exact readGroup_settled next _ _
      · exact fun _ => rfl

omit s in
theorem readMethod (invocant : Node) (name : Lexeme) :
    (g.readMethod invocant name rest).Settled behind
      (g.readMethod invocant name (rest ++ behind)) := by
  intro left
  have args : (g.readMethodArguments rest).Settled behind _ := readMethodArguments
  simp only [Grammar.readMethod, args left, Parse.before]

omit s in
theorem readArrow (base : Node) (arrow : Lexeme) :
    (g.readArrow base arrow rest).Settled behind (g.readArrow base arrow (rest ++ behind)) := by
  rcases rest with _ | ⟨next, rest⟩
  · exact fun left => absurd rfl left
  · simp only [List.cons_append, Grammar.readArrow]
    split
    · exact readGroup_settled next _ _
    · exact readGroup_settled next _ _
    · exact readGroup_settled next _ _
    · exact readPostfixDeref base next _
    · exact fun _ => rfl
    · exact readMethod base next
    · exact readMethod base next
    · exact fun _ => rfl

/-- A chain goes on where one of its links ends. -/
theorem onward (c : g.Consumes) {link further : Parse Node} (settled : link.Settled behind further)
    (short : link.2.length < n) :
    (g.chain link.1 link.2).Settled behind (g.chain further.1 further.2) := by
  intro left
  rw [settled ((c.chain _ _).ne_nil left)]
  exact s.chain link.1 short left

theorem readChain (c : g.Consumes) (node : Node) (short : rest.length ≤ n) :
    (g.readChain node rest).Settled behind (g.readChain node (rest ++ behind)) := by
  rcases rest with _ | ⟨next, rest⟩
  · exact fun left => absurd rfl left
  · have group := (readGroup_suffix next rest (fun lexemes =>
      indexed node next (g.readIndex next lexemes)) .error).length_le
    have arrow := (Consumes.readArrow (g := g) node next rest).length_le
    simp only [List.cons_append, Grammar.readChain]
    split
    · split
      · exact s.onward c (readDirectSubscript node next) (Nat.lt_of_le_of_lt group short)
      · exact fun _ => rfl
    · split
      · exact s.onward c (readDirectSubscript node next) (Nat.lt_of_le_of_lt group short)
      · exact fun _ => rfl
    · exact s.onward c (readArrow node next) (Nat.lt_of_le_of_lt arrow short)
    · split
      · exact s.chain _ short
      · exact fun _ => rfl
    · exact fun _ => rfl

/-! ## Operators -/

theorem readAtom (c : g.Consumes) (lexeme : Lexeme) (short : rest.length ≤ n) :
    (g.readAtom lexeme rest).Settled behind (g.readAtom lexeme (rest ++ behind)) := by
  intro left
  have first := s.readPrimary c lexeme short
  have taken := (c.readPrimary lexeme rest).length_le
  unfold Grammar.readAtom at left ⊢
  rcases read : g.readPrimary lexeme rest with ⟨primary, after⟩
  rw [read] at first taken
  have chained := s.readChain c primary (Nat.le_trans taken short)
  simp only [read] at left
  simp only [first ((c.readChain _ _).ne_nil left), Parse.before, chained left]

theorem readLeading (op : Lexeme) (short : rest.length ≤ n) :
    (g.readLeading op rest).Settled behind (g.readLeading op (rest ++ behind)) := by
  rcases rest with _ | ⟨lexeme, rest⟩
  · exact fun left => absurd rfl left
  · simp only [List.cons_append, Grammar.readLeading]
    split
    · intro left
      rw [s.operand lexeme short left]
      rfl
    · intro left
      rw [s.operation _ lexeme short left]
      rfl

theorem readOperand (c : g.Consumes) (lexeme : Lexeme) (short : rest.length ≤ n) :
    (g.readOperand lexeme rest).Settled behind (g.readOperand lexeme (rest ++ behind)) := by
  have leading := s.readLeading lexeme short
  have atom := s.readAtom c lexeme short
  rcases rest with _ | ⟨next, after⟩
  · exact fun left => absurd (List.suffix_nil.mp (c.readOperand lexeme [])) left
  · rw [List.cons_append] at leading atom ⊢
    unfold Grammar.readOperand
    split
    · split
      · intro left
        have operand := s.readRight lexeme Level.negation short left
        rw [List.cons_append] at operand
        simp only [operand, Parse.before]
      · exact leading
    · by_cases plus : lexeme.text = "+"
      · simp only [plus]
        split
        · intro left
          have first := s.primary next short
          have taken := (c.primary next after).length_le
          rcases read : g.primary next after with ⟨hash, further⟩
          rw [read] at first taken
          have chained := s.chain hash (Nat.lt_of_le_of_lt taken short)
          simp only [read] at left
          simp only [first ((c.chain _ _).ne_nil left), read, Parse.before, chained left]
        · exact leading
      · by_cases minus : lexeme.text = "-"
        · simpa only [minus] using leading
        · simpa [plus] using atom
    · exact atom

theorem readTernary (condition : Node) (question : Lexeme) (short : rest.length ≤ n) :
    (g.readTernary condition question rest).Settled behind
      (g.readTernary condition question (rest ++ behind)) := by
  intro left
  unfold Grammar.readTernary at left ⊢
  rcases found : cutAtColon? 0 0 rest with _ | cut
  · simp only [found] at left
    exact absurd rfl left
  · rw [isSearch_cutAtColon?.append (0, 0) found]
    have after := cut.after_suffix
    rw [cutAtColon?_whole found] at after
    rcases cut with ⟨before, colon, _ | ⟨lexeme, further⟩⟩
    · simp only [found] at left
      exact absurd rfl left
    · simp only [found, List.cons_append] at left ⊢
      have shorter : further.length < n := Nat.lt_of_lt_of_le after.length_le short
      simp only [s.operation Level.ternary lexeme shorter left, Parse.before]

theorem readClimb (c : g.Consumes) (level : Nat) (node : Node) (short : rest.length ≤ n) :
    (g.readClimb level node rest).Settled behind (g.readClimb level node (rest ++ behind)) := by
  rcases rest with _ | ⟨next, rest⟩
  · exact fun left => absurd rfl left
  · have short : rest.length < n := short
    have shorter := Nat.le_of_lt short
    simp only [List.cons_append, Grammar.readClimb]
    split
    · split
      · exact fun _ => rfl
      · intro left
        have taken := (c.readTernary node next rest).length_le
        have first := s.readTernary node next shorter
        rcases read : g.readTernary node next rest with ⟨ternary, after⟩
        rw [read] at first taken
        have further := s.climb level ternary (Nat.lt_of_le_of_lt taken short)
        simp only [read] at left
        simp only [first ((c.climb _ _ _).ne_nil left), Parse.before, further left]
    · split
      · exact fun _ => rfl
      · next binding found =>
        intro left
        have taken := (c.readRight next binding.rightLevel rest).length_le
        have first := s.readRight next binding.rightLevel shorter
        rcases read : g.readRight next binding.rightLevel rest with ⟨right, after⟩
        rw [read] at first taken
        have further := s.climb level (.binary next.text node right)
          (Nat.lt_of_le_of_lt taken short)
        simp only [read] at left
        simp only [first ((c.climb _ _ _).ne_nil left), Parse.before, further left]
    · exact fun _ => rfl

theorem readOperation (c : g.Consumes) (level : Nat) (lexeme : Lexeme) (short : rest.length ≤ n) :
    (g.readOperation level lexeme rest).Settled behind
      (g.readOperation level lexeme (rest ++ behind)) := by
  intro left
  have first := s.readOperand c lexeme short
  have taken := (c.readOperand lexeme rest).length_le
  unfold Grammar.readOperation at left ⊢
  rcases read : g.readOperand lexeme rest with ⟨operand, after⟩
  rw [read] at first taken
  have further := s.readClimb c level operand (Nat.le_trans taken short)
  simp only [read] at left
  simp only [first ((c.readClimb _ _ _).ne_nil left), Parse.before, further left]

theorem readItems (c : g.Consumes) (short : rest.length ≤ n) :
    (g.readItems rest).Settled behind (g.readItems (rest ++ behind)) := by
  rcases rest with _ | ⟨comma, _ | ⟨lexeme, rest⟩⟩
  · exact fun left => absurd rfl left
  · intro left
    simp only [Grammar.readItems, List.cons_append, List.nil_append] at left ⊢
    split
    · next separates =>
      rw [if_pos separates] at left
      exact absurd rfl left
    · rfl
  · intro left
    simp only [Grammar.readItems, List.cons_append] at left ⊢
    split
    · next separates =>
      rw [if_pos separates] at left
      split
      · next again =>
        rw [if_pos again] at left
        exact s.items short left
      · next item =>
        rw [if_neg item] at left
        have short : rest.length < n := Nat.lt_of_succ_lt short
        have taken := (c.operation Level.lowest lexeme rest).length_le
        have first := s.operation Level.lowest lexeme short
        rcases read : g.operation Level.lowest lexeme rest with ⟨item, after⟩
        rw [read] at first taken
        have further := s.items (Nat.lt_of_le_of_lt taken short)
        simp only [read] at left
        simp only [first ((c.items _).ne_nil left), read, Parse.before, further left]
    · rfl

/-- What holds of the productions on short lists holds of those of the next level on lists that are
one lexeme longer. -/
theorem step (c : g.Consumes) : g.step.Steady behind (n + 1) where
  signed := s.signed
  operation level lexeme _ short := s.readOperation c level lexeme (Nat.le_of_lt_succ short)
  climb level node _ short := s.readClimb c level node (Nat.le_of_lt_succ short)
  operand lexeme _ short := s.readOperand c lexeme (Nat.le_of_lt_succ short)
  primary lexeme _ short := s.readPrimary c lexeme (Nat.le_of_lt_succ short)
  chain node _ short := s.readChain c node (Nat.le_of_lt_succ short)
  items short := s.readItems c (Nat.le_of_lt_succ short)
  arguments short := s.readArguments c (Nat.le_of_lt_succ short)
  attributes := s.attributes

end Steady

/-- Where the complete grammar leaves something, lexemes behind it change nothing. -/
theorem steady_full (signed : Signed behind) (n : Nat) : full.Steady behind n := by
  induction n with
  | zero =>
    exact {
      signed
      operation := fun _ _ _ short => absurd short (Nat.not_lt_zero _)
      climb := fun _ _ _ short => absurd short (Nat.not_lt_zero _)
      operand := fun _ _ short => absurd short (Nat.not_lt_zero _)
      primary := fun _ _ short => absurd short (Nat.not_lt_zero _)
      chain := fun _ _ short => absurd short (Nat.not_lt_zero _)
      items := fun short => absurd short (Nat.not_lt_zero _)
      arguments := fun short => absurd short (Nat.not_lt_zero _)
      attributes := readAttributes_settled signed }
  | succ n ih =>
    rw [← step_full]
    exact ih.step consumes_full

end Grammar

end SigilScript
