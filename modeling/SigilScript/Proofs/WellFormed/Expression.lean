import SigilScript.Grammar.Statement
import SigilScript.Proofs.WellFormed.Basic

/-! # Expressions are well formed

What each production of an expression builds is formed, provided that this holds of what the
grammar builds. Most trees ask nothing of their parts; the operators, the steps, the slices and the
signatures do, and the checks before them are what their kinds ask for.
-/

namespace SigilScript

open Node (Formed AllFormed Signed)

/-! ## Reading without the grammar -/

/-- What holds of what is read inside a group, and of a fault, holds of what is read of it. -/
theorem readGroup_induction {α : Type} {motive : α → Prop} (opener : Lexeme) (rest : List Lexeme)
    {inside : List Lexeme → α} {unclosed : SyntaxFault → α}
    (within : ∀ inner, motive (inside inner))
    (without : ∀ fault, motive (unclosed fault)) :
    motive (readGroup opener rest inside unclosed).1 := by
  simp only [readGroup]
  split
  · exact within _
  · exact without _

theorem Node.formed_ofSpelling (sigil : Sigil) (spelling : String) :
    (Node.ofSpelling sigil spelling).Formed := by
  simp only [Node.ofSpelling]
  split <;> exact .var ..

/-- A lexeme that spells a variable spells nothing else. -/
theorem Lexeme.exists_var_of_asVar? {lexeme : Lexeme} {tree : Node}
    (spelled : lexeme.asVar? = some tree) : ∃ sigil name, tree = .var sigil name := by
  simp only [Lexeme.asVar?] at spelled
  split at spelled
  · next sigil kind =>
    obtain rfl := Option.some.inj spelled
    simp only [Node.ofSpelling]
    split
    · exact ⟨_, _, rfl⟩
    · exact ⟨_, _, rfl⟩
  · contradiction

theorem Lexeme.formed_of_asVar? {lexeme : Lexeme} {tree : Node}
    (spelled : lexeme.asVar? = some tree) : tree.Formed := by
  obtain ⟨sigil, name, rfl⟩ := lexeme.exists_var_of_asVar? spelled
  exact .var sigil name

theorem Node.formed_finish {parse : Parse Node} (formed : parse.1.Formed) :
    (Node.finish parse).Formed := by
  simp only [Node.finish]
  split
  · exact formed
  · exact .error _

namespace Grammar

theorem allFormed_plains (words : List String) : AllFormed (words.map Node.plain) := by
  intro tree member
  obtain ⟨word, -, rfl⟩ := List.mem_map.mp member
  exact .node rfl trivial rfl .nil

theorem allFormed_valueOf {values : List Node} (formed : AllFormed values) :
    AllFormed (valueOf values).toList := by
  rcases values with _ | ⟨value, _ | ⟨second, values⟩⟩
  · exact .nil
  · exact formed
  · exact .single (.node rfl trivial rfl formed)

theorem formed_readJump (jump : Jump) (rest : List Lexeme) : (readJump jump rest).1.Formed := by
  rcases rest with _ | ⟨label, rest⟩
  · exact .node rfl trivial rfl .nil
  · simp only [readJump]
    split <;> exact .node rfl trivial rfl .nil

/-- A container takes the sigil it is given where a variable or a dereference is indexed. -/
theorem formed_container (sigil : Sigil) {base : Node} (formed : base.Formed) :
    (container sigil base).Formed := by
  cases base with
  | var => exact .var ..
  | dereference => exact .node rfl trivial rfl (formed.children rfl)
  | _ => exact formed

/-- What takes a slice carries the sigil of an array. -/
theorem carries_of_takesSlice {base : Node} (slices : takesSlice base = true) :
    base.Carries .array := by
  simp only [takesSlice] at slices
  split at slices
  · exact .inl ⟨_, rfl⟩
  · exact .inr ⟨_, rfl⟩
  · contradiction

/-- The container of what carries a sigil carries the sigil it is given. -/
theorem carries_container {base : Node} {other : Sigil} (carries : base.Carries other)
    (sigil : Sigil) : (container sigil base).Carries sigil := by
  rcases carries with ⟨name, rfl⟩ | ⟨target, rfl⟩
  · exact .inl ⟨name, rfl⟩
  · exact .inr ⟨target, rfl⟩

theorem formed_indexed {base index : Node} (opener : Lexeme) (first : base.Formed)
    (second : index.Formed) : (indexed base opener index).Formed := by
  have parts (sigil : Sigil) : AllFormed [container sigil base, index] :=
    .cons (formed_container sigil first) (.single second)
  simp only [indexed]
  split
  · split
    · next slices =>
      exact .node rfl (carries_of_takesSlice slices) rfl (.cons first (.single second))
    · exact .node rfl trivial rfl (parts .array)
  · split
    · next slices =>
      exact .node rfl (carries_container (carries_of_takesSlice slices) .hash) rfl (parts .hash)
    · exact .node rfl trivial rfl (parts .hash)

/-- What can be stepped is of one of five kinds. -/
theorem kindName_of_isPlace {node : Node} (place : isPlace node = true) :
    node.kindName ∈ ["Variable", "ArrayAccess", "HashAccess", "Dereference", "PostfixDeref"] := by
  simp only [isPlace] at place
  split at place
  all_goals first | contradiction | simp [Node.kindName]

/-- What a grammar builds is formed. -/
structure Forms (g : Grammar) : Prop where
  whole : ∀ anchor lexemes, (g.whole anchor lexemes).Formed
  operation : ∀ level lexeme rest, (g.operation level lexeme rest).1.Formed
  climb : ∀ level node rest, node.Formed → (g.climb level node rest).1.Formed
  operand : ∀ lexeme rest, (g.operand lexeme rest).1.Formed
  primary : ∀ lexeme rest, (g.primary lexeme rest).1.Formed
  chain : ∀ node rest, node.Formed → (g.chain node rest).1.Formed
  items : ∀ rest, AllFormed (g.items rest).1
  arguments : ∀ rest, AllFormed (g.arguments rest).1
  clauses : ∀ finish rest, AllFormed ((g.clauses finish rest).1.flatMap Node.clauseParts)
  statements : ∀ lexemes, AllFormed (g.statements lexemes)

namespace Forms

variable {g : Grammar} (forms : g.Forms) {node : Node}
include forms

/-! ## Lists and subscripts -/

theorem readElements (anchor : Position) (lexemes : List Lexeme) :
    AllFormed (g.readElements anchor lexemes) := by
  intro tree member
  obtain ⟨segment, -, element⟩ := List.mem_filterMap.mp member
  split at element
  · contradiction
  · split at element
    · obtain rfl := Option.some.inj element
      exact .node rfl trivial rfl .nil
    · obtain rfl := Option.some.inj element
      exact forms.whole anchor segment.lexemes

theorem readSubscript (anchor : Position) (lexemes : List Lexeme) :
    (g.readSubscript anchor lexemes).Formed := by
  simp only [Grammar.readSubscript]
  split
  · exact .error _
  · split
    · exact .node rfl trivial rfl (forms.readElements anchor lexemes)
    · exact forms.whole anchor lexemes

theorem readIndex (opener : Lexeme) (lexemes : List Lexeme) :
    (g.readIndex opener lexemes).Formed := by
  simp only [Grammar.readIndex, Grammar.readHashKey]
  split
  · exact forms.readSubscript _ _
  · split
    · exact .node rfl trivial rfl .nil
    · exact forms.readSubscript _ _

theorem readGroupElements (opener : Lexeme) (rest : List Lexeme) :
    AllFormed (g.readGroupElements opener rest).1 :=
  readGroup_induction opener rest (forms.readElements opener.position) fun fault =>
    .single (.error fault)

theorem readArguments (rest : List Lexeme) : AllFormed (g.readArguments rest).1 := by
  rcases rest with _ | ⟨lexeme, rest⟩
  · exact .nil
  · have first := forms.operation Level.assignment lexeme rest
    simp only [Grammar.readArguments]
    split
    · split
      · exact .cons first (forms.arguments _)
      · exact .single first
    · exact .nil

theorem readCallArguments (rest : List Lexeme) : AllFormed (g.readCallArguments rest).1 := by
  rcases rest with _ | ⟨opener, rest⟩
  · exact .nil
  · simp only [Grammar.readCallArguments]
    split
    · exact forms.readGroupElements opener rest
    · exact forms.readArguments _

theorem readMethodArguments (rest : List Lexeme) : AllFormed (g.readMethodArguments rest).1 := by
  rcases rest with _ | ⟨opener, rest⟩
  · exact .nil
  · simp only [Grammar.readMethodArguments]
    split
    · exact forms.readGroupElements opener rest
    · exact .nil

/-! ## Blocks and signatures -/

theorem readBlock (finish : Position) (rest : List Lexeme) :
    AllFormed (g.readBlock finish rest).1 := by
  rcases rest with _ | ⟨opener, rest⟩
  · exact .single (.error _)
  · simp only [Grammar.readBlock]
    split
    · exact readGroup_induction opener rest forms.statements fun fault => .single (.error fault)
    · exact .single (.error _)

theorem readDefault (anchor : Position) (rest : List Lexeme) :
    AllFormed (g.readDefault anchor rest).toList := by
  rcases rest with _ | ⟨op, rest⟩
  · exact .nil
  · simp only [Grammar.readDefault]
    split
    · split
      · exact .single (.error _)
      · exact .single (forms.whole _ _)
    · exact .single (.error _)

theorem readParameter (anchor : Position) (segment : List Lexeme) :
    (g.readParameter anchor segment).Signed := by
  simp only [Grammar.readParameter]
  split
  · next holder spelled =>
    obtain ⟨first, -, spelled⟩ := Option.bind_eq_some_iff.mp spelled
    obtain ⟨sigil, name, rfl⟩ := first.exists_var_of_asVar? spelled
    exact .parameter sigil name (forms.readDefault anchor segment.tail)
  · exact .error _

theorem readParameters (rest : List Lexeme) :
    ∀ part ∈ (g.readParameters rest).1, part.Signed := by
  rcases rest with _ | ⟨opener, rest⟩
  · exact fun _ member => absurd member List.not_mem_nil
  · simp only [Grammar.readParameters]
    split
    · apply readGroup_induction (motive := fun params : List Node => ∀ part ∈ params, part.Signed)
      · intro inner part member
        obtain ⟨segment, -, rfl⟩ := List.mem_map.mp member
        exact forms.readParameter opener.position segment
      · intro fault part member
        obtain rfl := List.mem_singleton.mp member
        exact .error fault
    · exact fun _ member => absurd member List.not_mem_nil

/-! ## Primaries -/

theorem readRight (op : Lexeme) (level : Nat) (rest : List Lexeme) :
    (g.readRight op level rest).1.Formed := by
  rcases rest with _ | ⟨lexeme, rest⟩
  · exact .error _
  · exact forms.operation level lexeme rest

theorem readDereference (sigil : Sigil) (lexeme : Lexeme) (rest : List Lexeme) :
    (g.readDereference sigil lexeme rest).1.Formed := by
  rcases rest with _ | ⟨next, after⟩
  · exact .error _
  · -- What is dereferenced is the one part of the tree.
    have wrap {target : Node} (formed : target.Formed) :
        (if lexeme.text = "$#" then .leading "$#" target
          else .dereference sigil target : Node).Formed := by
      split <;> exact .node rfl trivial rfl (.single formed)
    simp only [Grammar.readDereference]
    split
    · exact wrap (readGroup_induction next after (forms.whole _) .error)
    · split
      · exact wrap (forms.primary next after)
      · exact .error _

theorem readDeclaration (lexeme : Lexeme) (rest : List Lexeme) :
    (g.readDeclaration lexeme rest).1.Formed := by
  have declared {targets : List Node} (formed : AllFormed targets) :
      (Node.declare lexeme.text targets).Formed := .node rfl trivial rfl (formed.append .nil)
  rcases rest with _ | ⟨next, rest⟩
  · exact declared (.single (.error _))
  · simp only [Grammar.readDeclaration]
    split
    · exact declared (forms.readGroupElements next rest)
    · exact declared (.single (forms.chain _ _ (forms.primary next rest)))

theorem readParenthesized (opener : Lexeme) (rest : List Lexeme) :
    (g.readParenthesized opener rest).1.Formed := by
  refine readGroup_induction opener rest (fun inner => ?_) .error
  split
  · exact .node rfl trivial rfl .nil
  · split
    · exact .node rfl trivial rfl (forms.readElements _ _)
    · exact forms.whole _ _

theorem readFilehandle (rest : List Lexeme) : AllFormed (g.readFilehandle rest).1.toList := by
  rcases rest with _ | ⟨first, rest⟩
  · exact .nil
  · simp only [Grammar.readFilehandle]
    split
    · exact readGroup_induction (motive := fun handle : Option Node => AllFormed handle.toList)
        first rest (fun inner => .single (forms.whole _ inner)) fun fault => .single (.error fault)
    · split
      · exact .nil
      · exact .single (.node rfl trivial rfl .nil)
    · split
      · rcases spelled : first.asVar? with _ | holder
        · exact .nil
        · exact .single (Lexeme.formed_of_asVar? spelled)
      · exact .nil
    · exact .nil

theorem readCall (name : String) (rest : List Lexeme) : (g.readCall name rest).1.Formed :=
  .node rfl trivial rfl (forms.readCallArguments rest)

theorem readAnonymousSub (keyword : Lexeme) (rest : List Lexeme) :
    (g.readAnonymousSub keyword rest).1.Formed :=
  .signed rfl trivial (forms.readParameters rest) (forms.readBlock _ _)

theorem readRequire (keyword : Lexeme) (rest : List Lexeme) :
    (g.readRequire keyword rest).1.Formed := by
  simp only [Grammar.readRequire]
  split
  · exact .node rfl trivial rfl (.single (.node rfl trivial rfl .nil))
  · exact .node rfl trivial rfl (.single (forms.readRight _ _ _))

theorem readOutput (output : Output) (rest : List Lexeme) :
    (g.readOutput output rest).1.Formed :=
  .node rfl trivial rfl ((forms.readFilehandle rest).append (forms.readArguments _))

theorem readAlarm (alarm : Alarm) (rest : List Lexeme) : (g.readAlarm alarm rest).1.Formed :=
  .node rfl trivial rfl (forms.readCallArguments rest)

theorem readKeyword (keyword : Lexeme) (rest : List Lexeme) :
    (g.readKeyword keyword rest).1.Formed := by
  simp only [Grammar.readKeyword]
  split
  · split
    · exact forms.readCall _ _
    · exact forms.readOutput _ _
  · split
    · exact forms.readCall _ _
    · exact forms.readOutput _ _
  · split
    · exact forms.readCall _ _
    · split
      · exact .node rfl trivial rfl (forms.readBlock _ _)
      · exact .node rfl trivial rfl (.single (forms.readRight _ _ _))
  · split
    · exact forms.readCall _ _
    · exact forms.readRequire _ _
  · exact forms.readAnonymousSub _ _
  · exact forms.readAlarm _ _
  · exact forms.readAlarm _ _
  · exact .node rfl trivial rfl (allFormed_valueOf (forms.readArguments rest))
  · exact formed_readJump .last rest
  · exact formed_readJump .next rest
  · exact formed_readJump .redo rest
  · exact .error _

theorem readNamedOperand (rest : List Lexeme) : AllFormed (g.readNamedOperand rest).1 := by
  rcases rest with _ | ⟨lexeme, rest⟩
  · exact .nil
  · simp only [Grammar.readNamedOperand]
    split
    · exact .single (forms.operation _ lexeme rest)
    · exact .nil

theorem readLeadingBlock (name : Lexeme) (rest : List Lexeme) :
    AllFormed (g.readLeadingBlock name rest).1 := by
  simp only [Grammar.readLeadingBlock]
  split
  · exact .single (.node rfl trivial rfl (forms.readBlock _ _))
  · exact .nil

theorem readBuiltin (name : Lexeme) (rest : List Lexeme) :
    (g.readBuiltin name rest).1.Formed := by
  simp only [Grammar.readBuiltin]
  split
  · exact .node rfl trivial rfl .nil
  · split
    · exact .node rfl trivial rfl (forms.readNamedOperand rest)
    · exact .node rfl trivial rfl
        ((forms.readLeadingBlock name rest).append (forms.readArguments _))

theorem readWord (name : Lexeme) (rest : List Lexeme) : (g.readWord name rest).1.Formed := by
  simp only [Grammar.readWord]
  split
  · exact .node rfl trivial rfl .nil
  · split
    · exact forms.readCall _ _
    · split
      · exact forms.readBuiltin _ _
      · split
        · exact .node rfl trivial rfl (forms.readArguments _)
        · exact .node rfl trivial rfl .nil

theorem readPrimary (lexeme : Lexeme) (rest : List Lexeme) :
    (g.readPrimary lexeme rest).1.Formed := by
  simp only [Grammar.readPrimary]
  split
  · exact .node rfl trivial rfl .nil
  · exact .node rfl trivial rfl .nil
  · next words _ => exact .node rfl trivial rfl (allFormed_plains words)
  · exact .node rfl trivial rfl .nil
  · exact Node.formed_ofSpelling _ _
  · exact forms.readDereference _ _ _
  · split
    · exact .node rfl trivial rfl .nil
    · exact readGroup_induction lexeme rest
        (fun inner => .node rfl trivial rfl (forms.readElements _ inner)) .error
    · exact readGroup_induction lexeme rest
        (fun inner => .node rfl trivial rfl (forms.readElements _ inner)) .error
    · exact forms.readParenthesized _ _
    · exact forms.readDeclaration _ _
    · exact forms.readKeyword _ _
    · exact forms.readWord _ _
    · exact forms.readWord _ _
    · exact .error _

/-! ## Chains -/

theorem readDirectSubscript (formed : node.Formed) (opener : Lexeme) (rest : List Lexeme) :
    (g.readDirectSubscript node opener rest).1.Formed :=
  readGroup_induction opener rest
    (fun inner => formed_indexed opener formed (forms.readIndex _ inner))
    .error

theorem readPostfixDeref (formed : node.Formed) (lexeme : Lexeme) (sigil : Sigil)
    (rest : List Lexeme) : (g.readPostfixDeref node lexeme sigil rest).1.Formed := by
  rcases rest with _ | ⟨next, rest⟩
  · exact .error _
  · simp only [Grammar.readPostfixDeref]
    split
    · exact .node rfl trivial rfl (.single formed)
    · split
      · exact readGroup_induction next rest
          (fun inner => .node rfl trivial rfl (.cons formed (.single (forms.readIndex next inner))))
          .error
      · exact .error _

theorem readMethod (formed : node.Formed) (name : Lexeme) (rest : List Lexeme) :
    (g.readMethod node name rest).1.Formed :=
  .node rfl trivial rfl (.cons formed (forms.readMethodArguments rest))

theorem readArrow (formed : node.Formed) (arrow : Lexeme) (rest : List Lexeme) :
    (g.readArrow node arrow rest).1.Formed := by
  rcases rest with _ | ⟨next, rest⟩
  · exact .error _
  · have element (kind : Access) (kindFits : ∀ index, (Node.access kind node index).FitsKind)
        (inner : List Lexeme) : (Node.access kind node (g.readIndex next inner)).Formed :=
      .node rfl (kindFits _) rfl (.cons formed (.single (forms.readIndex next inner)))
    simp only [Grammar.readArrow]
    split
    · exact readGroup_induction next rest (element .arrayElement fun _ => trivial) .error
    · exact readGroup_induction next rest (element .hashElement fun _ => trivial) .error
    · exact readGroup_induction next rest
        (fun inner => .node rfl trivial rfl (.cons formed (forms.readElements _ inner))) .error
    · exact forms.readPostfixDeref formed _ _ _
    · exact .error _
    · exact forms.readMethod formed _ _
    · exact forms.readMethod formed _ _
    · exact .error _

theorem readChain (formed : node.Formed) (rest : List Lexeme) :
    (g.readChain node rest).1.Formed := by
  rcases rest with _ | ⟨next, rest⟩
  · exact formed
  · simp only [Grammar.readChain]
    split
    · split
      · exact forms.chain _ _ (forms.readDirectSubscript formed next rest)
      · exact formed
    · split
      · exact forms.chain _ _ (forms.readDirectSubscript formed next rest)
      · exact formed
    · exact forms.chain _ _ (forms.readArrow formed next rest)
    · split
      · next steps =>
        obtain ⟨step, place⟩ := Bool.and_eq_true_iff.mp steps
        have kind : (Node.trailing next.text node).FitsKind :=
          ⟨by simpa using step, kindName_of_isPlace place⟩
        exact forms.chain _ _ (.node rfl kind rfl (.single formed))
      · exact formed
    · exact formed

/-! ## Operators -/

theorem readAtom (lexeme : Lexeme) (rest : List Lexeme) : (g.readAtom lexeme rest).1.Formed :=
  forms.readChain (forms.readPrimary lexeme rest) _

theorem readLeading (op : Lexeme) (rest : List Lexeme) : (g.readLeading op rest).1.Formed := by
  rcases rest with _ | ⟨lexeme, rest⟩
  · exact .node rfl trivial rfl (.single (.error _))
  · simp only [Grammar.readLeading]
    split
    · exact .node rfl trivial rfl (.single (forms.operand lexeme rest))
    · exact .node rfl trivial rfl (.single (forms.operation _ lexeme rest))

theorem readOperand (lexeme : Lexeme) (rest : List Lexeme) :
    (g.readOperand lexeme rest).1.Formed := by
  simp only [Grammar.readOperand]
  split
  · split
    · exact .node rfl trivial rfl (.single (forms.readRight _ _ _))
    · exact forms.readLeading _ _
  · split
    · split
      · exact forms.chain _ _ (forms.primary _ _)
      · exact forms.readLeading _ _
    · exact forms.readLeading _ _
    · exact forms.readLeading _ _
    · exact forms.readAtom _ _
  · exact forms.readAtom _ _

theorem readBranch (anchor : Position) (lexemes : List Lexeme) :
    (g.readBranch anchor lexemes).Formed := by
  simp only [Grammar.readBranch]
  split
  · exact .error _
  · exact forms.whole _ _

theorem readTernary (formed : node.Formed) (question : Lexeme) (rest : List Lexeme) :
    (g.readTernary node question rest).1.Formed := by
  have built {whenTrue whenFalse : Node} (first : whenTrue.Formed) (second : whenFalse.Formed) :
      (Node.ternary node whenTrue whenFalse).Formed :=
    .node rfl trivial rfl (.cons formed (.cons first (.single second)))
  simp only [Grammar.readTernary]
  split
  · exact built (forms.readBranch _ _) (.error _)
  · next cut _ =>
    refine built (forms.readBranch _ _) ?_
    rcases cut.after with _ | ⟨lexeme, after⟩
    · exact .error _
    · exact forms.operation _ lexeme after

/-- An operator that climbs has a place in the table. -/
theorem readClimb (level : Nat) (formed : node.Formed) (rest : List Lexeme) :
    (g.readClimb level node rest).1.Formed := by
  rcases rest with _ | ⟨next, rest⟩
  · exact formed
  · simp only [Grammar.readClimb]
    split
    · split
      · exact formed
      · exact forms.climb _ _ _ (forms.readTernary formed next rest)
    · split
      · exact formed
      · next binding found =>
        have binds : (binding? next.text).isSome = true :=
          Option.isSome_of_mem (Option.filter_eq_some_iff.mp found).1
        exact forms.climb _ _ _ (.binary binds formed (forms.readRight _ _ _))
    · exact formed

theorem readOperation (level : Nat) (lexeme : Lexeme) (rest : List Lexeme) :
    (g.readOperation level lexeme rest).1.Formed :=
  forms.readClimb level (forms.readOperand lexeme rest) _

theorem readItems (rest : List Lexeme) : AllFormed (g.readItems rest).1 := by
  rcases rest with _ | ⟨comma, rest⟩
  · exact .nil
  · simp only [Grammar.readItems]
    split
    · rcases rest with _ | ⟨lexeme, after⟩
      · exact .nil
      · dsimp only
        split
        · exact forms.items _
        · exact .cons (forms.operation _ lexeme after) (forms.items _)
    · exact .nil

theorem readWhole (anchor : Position) (lexemes : List Lexeme) :
    (g.readWhole anchor lexemes).Formed := by
  rcases lexemes with _ | ⟨lexeme, rest⟩
  · exact .error _
  · have first := forms.readOperation Level.lowest lexeme rest
    simp only [Grammar.readWhole]
    split
    · exact Node.formed_finish (.node rfl trivial rfl (.cons first (forms.readItems _)))
    · exact Node.formed_finish first

end Forms

end Grammar

end SigilScript
