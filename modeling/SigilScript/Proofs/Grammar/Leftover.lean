import SigilScript.Grammar.Statement
import SigilScript.Proofs.Nesting

/-! # What a production leaves

A production reads from the front, so the lexemes it leaves are an end of those it was given. The
grammar at every level has this property; so a production started on what another left reads a
list that is no longer.
-/

namespace SigilScript

/-- A group that is read as it stands, or the fault in its place. -/
theorem readGroup_cases {α : Type} {opener : Lexeme} {rest after : List Lexeme}
    {inside : List Lexeme → α} {unclosed : SyntaxFault → α} {value : α}
    (read : readGroup opener rest inside unclosed = (value, after)) :
    (∃ inner, takeGroup opener rest = (.ok inner, after) ∧ value = inside inner) ∨
      ∃ fault, takeGroup opener rest = (.error fault, after) ∧ value = unclosed fault := by
  rcases taken : takeGroup opener rest with ⟨fault | inner, behind⟩
  · simp only [readGroup, taken] at read
    obtain ⟨rfl, rfl⟩ := Prod.mk.inj read
    exact .inr ⟨fault, rfl, rfl⟩
  · simp only [readGroup, taken] at read
    obtain ⟨rfl, rfl⟩ := Prod.mk.inj read
    exact .inl ⟨inner, rfl, rfl⟩

theorem readGroup_suffix {α : Type} (opener : Lexeme) (rest : List Lexeme)
    (inside : List Lexeme → α) (unclosed : SyntaxFault → α) :
    (readGroup opener rest inside unclosed).2 <:+ rest := by
  have group := takeGroup_suffix opener rest
  simp only [readGroup]
  split
  · next taken => rwa [taken] at group
  · next taken => rwa [taken] at group

section Names

variable {wanted : Construct} {anchor : Position} {rest after : List Lexeme} {name : String}

/-- A name is a word, and what stands behind it is left. -/
theorem readName_of_ok (read : readName wanted anchor rest = .ok (name, after)) :
    ∃ word : Lexeme, word.isWord = true ∧ rest = word :: after := by
  cases rest with
  | nil => contradiction
  | cons word rest =>
    simp only [readName] at read
    split at read
    · next isWord =>
      obtain ⟨-, rfl⟩ := Prod.mk.inj (Except.ok.inj read)
      exact ⟨word, isWord, rfl⟩
    · contradiction

/-- What stands in the place of a name is not what was expected. -/
theorem readName_of_error {tree : Node} (read : readName wanted anchor rest = .error tree) :
    tree = .expected wanted rest.head? anchor := by
  cases rest with
  | nil => exact (Except.error.inj read).symm
  | cons word rest =>
    simp only [readName] at read
    split at read
    · contradiction
    · exact (Except.error.inj read).symm

theorem readName_suffix (read : readName wanted anchor rest = .ok (name, after)) :
    after <:+ rest := by
  obtain ⟨word, -, rfl⟩ := readName_of_ok read
  exact List.suffix_cons ..

end Names

theorem readVersion_suffix (rest : List Lexeme) : (readVersion rest).2 <:+ rest := by
  cases rest with
  | nil => exact List.suffix_refl _
  | cons version rest =>
    simp only [readVersion]
    split
    · exact List.suffix_cons ..
    · exact List.suffix_refl _

theorem readAttributeGroup_suffix (rest : List Lexeme) : (readAttributeGroup rest).2 <:+ rest := by
  cases rest with
  | nil => exact List.suffix_refl _
  | cons opener rest =>
    simp only [readAttributeGroup]
    split
    · exact (readGroup_suffix ..).trans (List.suffix_cons ..)
    · exact List.suffix_refl _

theorem readAttributesUpTo_suffix (count : Nat) (rest : List Lexeme) :
    (readAttributesUpTo count rest).2 <:+ rest := by
  fun_induction readAttributesUpTo count rest with
  | case1 count colon word rest _ args after group attributes final further ih =>
    have inner := readAttributeGroup_suffix rest
    rw [group] at inner
    rw [further] at ih
    exact ih.trans (inner.trans ((List.suffix_cons ..).trans (List.suffix_cons ..)))
  | case2 => exact List.suffix_refl _
  | case3 => exact List.suffix_refl _

theorem readAttributes_suffix (rest : List Lexeme) : (readAttributes rest).2 <:+ rest :=
  readAttributesUpTo_suffix _ _

/-- Where reading goes on behind a missing condition: at the next brace of depth zero. -/
def atBrace (rest : List Lexeme) : List Lexeme :=
  match cutAtTopLevel? (fun lexeme => lexeme.category = .leftBrace) 0 rest with
  | some cut => cut.found :: cut.after
  | none => []

theorem atBrace_suffix (rest : List Lexeme) : atBrace rest <:+ rest := by
  simp only [atBrace]
  split
  · next cut found =>
    rw [← cutAtTopLevel?_whole found]
    exact List.suffix_append _ _
  · exact List.nil_suffix

theorem Cut.after_suffix (cut : Cut) : cut.after <:+ cut.whole :=
  (List.suffix_cons ..).trans (List.suffix_append ..)

namespace Grammar

/-- Every production leaves an end of the lexemes it was given. -/
structure Consumes (g : Grammar) : Prop where
  operation : ∀ level lexeme rest, (g.operation level lexeme rest).2 <:+ rest
  climb : ∀ level node rest, (g.climb level node rest).2 <:+ rest
  operand : ∀ lexeme rest, (g.operand lexeme rest).2 <:+ rest
  primary : ∀ lexeme rest, (g.primary lexeme rest).2 <:+ rest
  chain : ∀ node rest, (g.chain node rest).2 <:+ rest
  items : ∀ rest, (g.items rest).2 <:+ rest
  arguments : ∀ rest, (g.arguments rest).2 <:+ rest
  attributes : ∀ rest, (g.attributes rest).2 <:+ rest
  clauses : ∀ finish rest, (g.clauses finish rest).2 <:+ rest

theorem readJump_suffix (jump : Jump) (rest : List Lexeme) : (readJump jump rest).2 <:+ rest := by
  cases rest with
  | nil => exact List.suffix_refl _
  | cons label rest =>
    simp only [readJump]
    split
    · exact List.suffix_cons ..
    · exact List.suffix_refl _

namespace Consumes

variable {g : Grammar} (c : g.Consumes)
include c

/-! ## Lists and blocks -/

theorem readArguments (rest : List Lexeme) : (g.readArguments rest).2 <:+ rest := by
  cases rest with
  | nil => exact List.suffix_refl _
  | cons lexeme rest =>
    have first := (c.operation Level.assignment lexeme rest).trans (List.suffix_cons lexeme rest)
    simp only [Grammar.readArguments]
    split
    · split
      · exact (c.arguments _).trans ((List.dropWhile_suffix _).trans first)
      · exact first
    · exact List.suffix_refl _

theorem readCallArguments (rest : List Lexeme) : (g.readCallArguments rest).2 <:+ rest := by
  cases rest with
  | nil => exact List.suffix_refl _
  | cons opener rest =>
    simp only [Grammar.readCallArguments]
    split
    · exact (readGroup_suffix ..).trans (List.suffix_cons ..)
    · exact c.readArguments _

omit c in
theorem readMethodArguments (rest : List Lexeme) : (g.readMethodArguments rest).2 <:+ rest := by
  cases rest with
  | nil => exact List.suffix_refl _
  | cons opener rest =>
    simp only [Grammar.readMethodArguments]
    split
    · exact (readGroup_suffix ..).trans (List.suffix_cons ..)
    · exact List.suffix_refl _

omit c in
theorem readBlock (finish : Position) (rest : List Lexeme) :
    (g.readBlock finish rest).2 <:+ rest := by
  cases rest with
  | nil => exact List.suffix_refl _
  | cons opener rest =>
    simp only [Grammar.readBlock]
    split
    · exact (readGroup_suffix ..).trans (List.suffix_cons ..)
    · exact List.nil_suffix

omit c in
theorem readParameters (rest : List Lexeme) : (g.readParameters rest).2 <:+ rest := by
  cases rest with
  | nil => exact List.suffix_refl _
  | cons opener rest =>
    simp only [Grammar.readParameters]
    split
    · exact (readGroup_suffix ..).trans (List.suffix_cons ..)
    · exact List.suffix_refl _

/-! ## Operands -/

theorem readRight (op : Lexeme) (level : Nat) (rest : List Lexeme) :
    (g.readRight op level rest).2 <:+ rest := by
  cases rest with
  | nil => exact List.suffix_refl _
  | cons lexeme rest => exact (c.operation level lexeme rest).trans (List.suffix_cons ..)

theorem readDereference (sigil : Sigil) (lexeme : Lexeme) (rest : List Lexeme) :
    (g.readDereference sigil lexeme rest).2 <:+ rest := by
  cases rest with
  | nil => exact List.suffix_refl _
  | cons next after =>
    simp only [Grammar.readDereference]
    split
    · exact (readGroup_suffix ..).trans (List.suffix_cons ..)
    · split
      · exact (c.primary next after).trans (List.suffix_cons ..)
      · exact List.suffix_refl _

theorem readDeclaration (lexeme : Lexeme) (rest : List Lexeme) :
    (g.readDeclaration lexeme rest).2 <:+ rest := by
  cases rest with
  | nil => exact List.suffix_refl _
  | cons next rest =>
    simp only [Grammar.readDeclaration]
    split
    · exact (readGroup_suffix ..).trans (List.suffix_cons ..)
    · exact (c.chain _ _).trans ((c.primary next rest).trans (List.suffix_cons ..))

omit c in
theorem readFilehandle (rest : List Lexeme) : (g.readFilehandle rest).2 <:+ rest := by
  cases rest with
  | nil => exact List.suffix_refl _
  | cons first rest =>
    simp only [Grammar.readFilehandle]
    split
    · exact (readGroup_suffix ..).trans (List.suffix_cons ..)
    · split
      · exact List.suffix_refl _
      · exact List.suffix_cons ..
    · split
      · exact List.suffix_cons ..
      · exact List.suffix_refl _
    · exact List.suffix_refl _

theorem readCall (name : String) (rest : List Lexeme) : (g.readCall name rest).2 <:+ rest :=
  c.readCallArguments rest

theorem readAnonymousSub (keyword : Lexeme) (rest : List Lexeme) :
    (g.readAnonymousSub keyword rest).2 <:+ rest :=
  (readBlock _ _).trans ((c.attributes _).trans (readParameters rest))

theorem readRequire (keyword : Lexeme) (rest : List Lexeme) :
    (g.readRequire keyword rest).2 <:+ rest := by
  simp only [Grammar.readRequire]
  split
  · exact List.tail_suffix rest
  · exact c.readRight _ _ _

theorem readOutput (output : Output) (rest : List Lexeme) :
    (g.readOutput output rest).2 <:+ rest :=
  (c.readArguments _).trans (readFilehandle rest)

theorem readKeyword (keyword : Lexeme) (rest : List Lexeme) :
    (g.readKeyword keyword rest).2 <:+ rest := by
  simp only [Grammar.readKeyword]
  split
  · split
    · exact c.readCall _ _
    · exact c.readOutput _ _
  · split
    · exact c.readCall _ _
    · exact c.readOutput _ _
  · split
    · exact c.readCall _ _
    · split
      · exact readBlock _ _
      · exact c.readRight _ _ _
  · split
    · exact c.readCall _ _
    · exact c.readRequire _ _
  · exact c.readAnonymousSub _ _
  · exact c.readCallArguments _
  · exact c.readCallArguments _
  · exact c.readArguments _
  · exact readJump_suffix _ _
  · exact readJump_suffix _ _
  · exact readJump_suffix _ _
  · exact List.suffix_refl _

theorem readNamedOperand (rest : List Lexeme) : (g.readNamedOperand rest).2 <:+ rest := by
  cases rest with
  | nil => exact List.suffix_refl _
  | cons lexeme rest =>
    simp only [Grammar.readNamedOperand]
    split
    · exact (c.operation _ _ _).trans (List.suffix_cons ..)
    · exact List.suffix_refl _

omit c in
theorem readLeadingBlock (name : Lexeme) (rest : List Lexeme) :
    (g.readLeadingBlock name rest).2 <:+ rest := by
  simp only [Grammar.readLeadingBlock]
  split
  · split
    · exact (List.tail_suffix _).trans (readBlock _ rest)
    · exact readBlock _ rest
  · exact List.suffix_refl _

theorem readBuiltin (name : Lexeme) (rest : List Lexeme) :
    (g.readBuiltin name rest).2 <:+ rest := by
  simp only [Grammar.readBuiltin]
  split
  · exact List.suffix_refl _
  · split
    · exact c.readNamedOperand rest
    · exact (c.readArguments _).trans (readLeadingBlock name rest)

theorem readWord (name : Lexeme) (rest : List Lexeme) : (g.readWord name rest).2 <:+ rest := by
  simp only [Grammar.readWord]
  split
  · exact List.suffix_refl _
  · split
    · exact c.readCall _ _
    · split
      · exact c.readBuiltin _ _
      · split
        · exact c.readArguments _
        · exact List.suffix_refl _

theorem readPrimary (lexeme : Lexeme) (rest : List Lexeme) :
    (g.readPrimary lexeme rest).2 <:+ rest := by
  simp only [Grammar.readPrimary]
  split
  · exact List.suffix_refl _
  · exact List.suffix_refl _
  · exact List.suffix_refl _
  · exact List.suffix_refl _
  · exact List.suffix_refl _
  · exact c.readDereference _ _ _
  · split
    · exact List.suffix_refl _
    · exact readGroup_suffix ..
    · exact readGroup_suffix ..
    · exact readGroup_suffix ..
    · exact c.readDeclaration _ _
    · exact c.readKeyword _ _
    · exact c.readWord _ _
    · exact c.readWord _ _
    · exact List.suffix_refl _

/-! ## Chains and operators -/

omit c in
theorem readPostfixDeref (base : Node) (lexeme : Lexeme) (sigil : Sigil) (rest : List Lexeme) :
    (g.readPostfixDeref base lexeme sigil rest).2 <:+ rest := by
  cases rest with
  | nil => exact List.suffix_refl _
  | cons next rest =>
    simp only [Grammar.readPostfixDeref]
    split
    · exact List.suffix_cons ..
    · split
      · exact (readGroup_suffix ..).trans (List.suffix_cons ..)
      · exact List.suffix_refl _

omit c in
theorem readArrow (base : Node) (arrow : Lexeme) (rest : List Lexeme) :
    (g.readArrow base arrow rest).2 <:+ rest := by
  cases rest with
  | nil => exact List.suffix_refl _
  | cons next rest =>
    simp only [Grammar.readArrow]
    split
    · exact (readGroup_suffix ..).trans (List.suffix_cons ..)
    · exact (readGroup_suffix ..).trans (List.suffix_cons ..)
    · exact (readGroup_suffix ..).trans (List.suffix_cons ..)
    · exact (readPostfixDeref ..).trans (List.suffix_cons ..)
    · exact List.suffix_cons ..
    · exact (readMethodArguments _).trans (List.suffix_cons ..)
    · exact (readMethodArguments _).trans (List.suffix_cons ..)
    · exact List.suffix_cons ..

theorem readChain (node : Node) (rest : List Lexeme) : (g.readChain node rest).2 <:+ rest := by
  cases rest with
  | nil => exact List.suffix_refl _
  | cons next rest =>
    simp only [Grammar.readChain]
    split
    · split
      · exact (c.chain _ _).trans ((readGroup_suffix ..).trans (List.suffix_cons ..))
      · exact List.suffix_refl _
    · split
      · exact (c.chain _ _).trans ((readGroup_suffix ..).trans (List.suffix_cons ..))
      · exact List.suffix_refl _
    · exact (c.chain _ _).trans ((readArrow _ _ rest).trans (List.suffix_cons ..))
    · split
      · exact (c.chain _ _).trans (List.suffix_cons ..)
      · exact List.suffix_refl _
    · exact List.suffix_refl _

theorem readAtom (lexeme : Lexeme) (rest : List Lexeme) : (g.readAtom lexeme rest).2 <:+ rest :=
  (c.readChain _ _).trans (c.readPrimary lexeme rest)

theorem readLeading (op : Lexeme) (rest : List Lexeme) : (g.readLeading op rest).2 <:+ rest := by
  cases rest with
  | nil => exact List.suffix_refl _
  | cons lexeme rest =>
    simp only [Grammar.readLeading]
    split
    · exact (c.operand lexeme rest).trans (List.suffix_cons ..)
    · exact (c.operation _ lexeme rest).trans (List.suffix_cons ..)

theorem readOperand (lexeme : Lexeme) (rest : List Lexeme) :
    (g.readOperand lexeme rest).2 <:+ rest := by
  simp only [Grammar.readOperand]
  split
  · split
    · exact c.readRight _ _ _
    · exact c.readLeading _ _
  · split
    · split
      · exact (c.chain _ _).trans ((c.primary _ _).trans (List.suffix_cons ..))
      · exact c.readLeading _ _
    · exact c.readLeading _ _
    · exact c.readLeading _ _
    · exact c.readAtom _ _
  · exact c.readAtom _ _

theorem readTernary (condition : Node) (question : Lexeme) (rest : List Lexeme) :
    (g.readTernary condition question rest).2 <:+ rest := by
  simp only [Grammar.readTernary]
  split
  · exact List.nil_suffix
  · next cut found =>
    have after := cut.after_suffix
    rw [cutAtColon?_whole found] at after
    split
    · exact List.nil_suffix
    · next lexeme further same =>
      rw [same] at after
      exact (c.operation _ _ _).trans ((List.suffix_cons lexeme further).trans after)

theorem readClimb (level : Nat) (left : Node) (rest : List Lexeme) :
    (g.readClimb level left rest).2 <:+ rest := by
  cases rest with
  | nil => exact List.suffix_refl _
  | cons next rest =>
    simp only [Grammar.readClimb]
    split
    · split
      · exact List.suffix_refl _
      · exact (c.climb _ _ _).trans ((c.readTernary _ _ _).trans (List.suffix_cons ..))
    · split
      · exact List.suffix_refl _
      · exact (c.climb _ _ _).trans ((c.readRight _ _ _).trans (List.suffix_cons ..))
    · exact List.suffix_refl _

theorem readOperation (level : Nat) (lexeme : Lexeme) (rest : List Lexeme) :
    (g.readOperation level lexeme rest).2 <:+ rest :=
  (c.readClimb _ _ _).trans (c.readOperand lexeme rest)

theorem readItems (rest : List Lexeme) : (g.readItems rest).2 <:+ rest := by
  cases rest with
  | nil => exact List.suffix_refl _
  | cons comma rest =>
    simp only [Grammar.readItems]
    split
    · split
      · exact List.nil_suffix
      · split
        · exact (c.items _).trans (List.suffix_cons ..)
        · exact (c.items _).trans ((c.operation _ _ _).trans
            ((List.suffix_cons ..).trans (List.suffix_cons ..)))
    · exact List.suffix_refl _

/-! ## Statements -/

omit c in
theorem readCondition (keyword : Lexeme) (rest : List Lexeme) :
    (g.readCondition keyword rest).2 <:+ rest := by
  have missing := atBrace_suffix rest
  simp only [Grammar.readCondition]
  split
  · exact missing
  · split
    · exact (readGroup_suffix ..).trans (List.suffix_cons ..)
    · exact missing

theorem readClauses (finish : Position) (rest : List Lexeme) :
    (g.readClauses finish rest).2 <:+ rest := by
  cases rest with
  | nil => exact List.suffix_refl _
  | cons keyword rest =>
    simp only [Grammar.readClauses]
    split
    · exact (c.clauses _ _).trans ((readBlock _ _).trans
        ((readCondition keyword rest).trans (List.suffix_cons ..)))
    · exact List.suffix_refl _

end Consumes

/-- The productions of the next level consume what those of this level do. -/
theorem Consumes.step {g : Grammar} (c : g.Consumes) : g.step.Consumes where
  operation := c.readOperation
  climb := c.readClimb
  operand := c.readOperand
  primary := c.readPrimary
  chain := c.readChain
  items := c.readItems
  arguments := c.readArguments
  attributes := c.attributes
  clauses := c.readClauses

theorem consumes_empty : empty.Consumes where
  operation _ _ _ := List.suffix_refl _
  climb _ _ _ := List.suffix_refl _
  operand _ _ := List.suffix_refl _
  primary _ _ := List.suffix_refl _
  chain _ _ := List.suffix_refl _
  items _ := List.suffix_refl _
  arguments _ := List.suffix_refl _
  attributes := readAttributes_suffix
  clauses _ _ := List.suffix_refl _

/-- At every level a production leaves an end of what it was given. -/
theorem consumes_level (n : Nat) : (level n).Consumes := by
  induction n with
  | zero => exact consumes_empty
  | succ n ih => exact ih.step

/-- Attributes are read alike at every level. -/
theorem attributes_level (n : Nat) : (level n).attributes = readAttributes := by
  induction n with
  | zero => rfl
  | succ n ih => exact ih

end Grammar

end SigilScript
