import SigilScript.Proofs.Tally.Basic

/-! # The tally of expressions

What each production of an expression reads has an even tally, provided that this holds of what the
grammar reads and that the grammar reads no attributes.
-/

namespace SigilScript

namespace Tally

variable {trees : List Node} {tree : Node} {lexemes left rest : List Lexeme} {opener : Lexeme}

/-! ## Reading without the grammar -/

/-- What stands between separators is read from the list that was split. -/
theorem segments {separator : Category} (other : separator ≠ .var) {trees : Segment → List Node}
    {lexemes : List Lexeme}
    (each : ∀ segment ∈ segmentsAt separator lexemes, Tally (trees segment) segment.lexemes []) :
    Tally ((segmentsAt separator lexemes).flatMap trees) lexemes [] := by
  have separators (segment : Segment) (member : segment ∈ segmentsAt separator lexemes) :
      Tally [] segment.separator.toList [] := by
    rcases ends : segment.separator with _ | found
    · exact .refl []
    · exact .silent (Lexeme.silent_of_role (separator_segmentsAt member ends) other)
  have whole := flatMap_whole_segmentsAt separator lexemes
  generalize segmentsAt separator lexemes = segments at *
  rw [← whole]
  clear whole
  induction segments with
  | nil => exact .refl []
  | cons segment segments ih =>
    have first := each segment List.mem_cons_self
    have ends := separators segment List.mem_cons_self
    have others := ih (fun other member => each other (List.mem_cons_of_mem _ member))
      fun other member => separators other (List.mem_cons_of_mem _ member)
    rw [List.flatMap_cons, List.flatMap_cons, Segment.whole, List.append_assoc]
    exact .trans (first.all_before _) (.trans (ends.all_before _) others)

/-- A group; without its end a fault takes the place of all that was to be read from it. -/
theorem readGroup {α : Type} (trees : α → List Node) {inside : List Lexeme → α}
    {unclosed : SyntaxFault → α} (within : ∀ inner, Tally (trees (inside inner)) inner [])
    (without : ∀ fault, trees (unclosed fault) = [.error fault]) :
    Tally (trees (readGroup opener rest inside unclosed).1) (opener :: rest)
      (readGroup opener rest inside unclosed).2 := by
  rcases group : takeGroup opener rest with ⟨fault | inner, after⟩
  · obtain ⟨-, suffix⟩ := takeGroup_error group
    simp only [SigilScript.readGroup, group, without]
    exact .fault (List.subset_cons_of_subset _ suffix.subset)
  · obtain ⟨closer, partner, rfl⟩ := takeGroup_ok group
    simp only [SigilScript.readGroup, group]
    exact .group partner (within inner)

/-- A group that makes a tree of another and of what is inside. -/
theorem readGroup_behind {base : Node} (tally : Tally [base] lexemes (opener :: rest))
    {inside : List Lexeme → Node} (nodes : List Lexeme → List Node)
    (within : ∀ inner, Tally (nodes inner) inner [])
    (around : ∀ inner left, Tally (base :: nodes inner) lexemes left →
      Tally [inside inner] lexemes left) :
    Tally [(SigilScript.readGroup opener rest inside .error).1] lexemes
      (SigilScript.readGroup opener rest inside .error).2 := by
  rcases group : takeGroup opener rest with ⟨fault | inner, after⟩
  · obtain ⟨-, suffix⟩ := takeGroup_error group
    simp only [SigilScript.readGroup, group]
    have behind := List.subset_cons_of_subset opener suffix.subset
    exact .fault (List.Subset.trans behind tally.within)
  · obtain ⟨closer, partner, rfl⟩ := takeGroup_ok group
    simp only [SigilScript.readGroup, group]
    exact around inner after (tally.trans (.group partner (within inner)))

theorem barewordKey? {key : String} (spelled : barewordKey? lexemes = some key) :
    Tally [] lexemes [] := by
  rcases lexemes with _ | ⟨first, _ | ⟨second, _ | ⟨third, rest⟩⟩⟩
  · exact .refl []
  · simp only [SigilScript.barewordKey?] at spelled
    split at spelled
    · next word => exact .silent (Lexeme.silent_of_word word)
    · contradiction
  · simp only [SigilScript.barewordKey?] at spelled
    split at spelled
    · next both =>
      obtain ⟨minus, word⟩ := Bool.and_eq_true_iff.mp both
      exact skip_head (Lexeme.silent_of_operator minus) (.silent (Lexeme.silent_of_word word))
    · contradiction
  · simp [SigilScript.barewordKey?] at spelled

/-- The words of a word list name no variables. -/
theorem plains (words : List String) (lexemes : List Lexeme) :
    Tally (words.map Node.plain) lexemes lexemes := by
  induction words with
  | nil => exact .refl _
  | cons word words ih =>
    have first : Tally [.plain word] lexemes lexemes := .node rfl rfl (.refl _)
    exact .trans first ih

theorem valueOf {values : List Node} (tally : Tally values lexemes left) :
    Tally (Grammar.valueOf values).toList lexemes left := by
  rcases values with _ | ⟨value, _ | ⟨second, values⟩⟩
  · exact tally
  · exact tally
  · exact .node rfl rfl tally

theorem binary {first second : Node} (op : String)
    (tally : Tally [first, second] lexemes left) :
    Tally [.binary op first second] lexemes left := by
  simp only [Node.binary]
  split
  · exact .node rfl rfl tally
  · split <;> exact .node rfl rfl tally

theorem readJump (jump : Jump) (rest : List Lexeme) :
    Tally [(Grammar.readJump jump rest).1] rest (Grammar.readJump jump rest).2 := by
  rcases rest with _ | ⟨label, rest⟩
  · exact .node rfl rfl (.refl _)
  · simp only [Grammar.readJump]
    split
    · next role => exact .leaf rfl rfl rfl (Lexeme.silent_of_role role (by decide))
    · exact .node rfl rfl (.refl _)

theorem dropWhile_comma (rest : List Lexeme) :
    Tally [] rest (rest.dropWhile fun next => next.category = .comma) := by
  induction rest with
  | nil => exact .refl []
  | cons next rest ih =>
    rw [List.dropWhile_cons]
    split
    · next comma =>
      have role : next.category = .comma := of_decide_eq_true comma
      exact skip_head (Lexeme.silent_of_role role (by decide)) ih
    · exact .refl _

/-- What is indexed may change its sigil, and keeps its name. -/
theorem indexed {base index : Node} (opener : Lexeme)
    (tally : Tally [base, index] lexemes left) :
    Tally [Grammar.indexed base opener index] lexemes left := by
  have resigiled (kind : Access) (sigil : Sigil) :
      Tally [.access kind (Grammar.container sigil base) index] lexemes left := by
    have faults : (Grammar.container sigil base).faults = base.faults := by cases base <;> rfl
    have names : heldNames [Grammar.container sigil base] = heldNames [base] := by
      rw [heldNames_singleton, heldNames_singleton base]
      cases base <;> rfl
    refine .node rfl rfl (tally.congr ?_ ?_)
    · simp only [Node.children, List.flatMap_cons, faults]
    · rw [Node.children, heldNames_cons _ [index], names, ← heldNames_cons]
  simp only [Grammar.indexed]
  split
  · split
    · exact .node rfl rfl tally
    · exact resigiled .arrayElement .array
  · split
    · exact resigiled .hashSlice .hash
    · exact resigiled .hashElement .hash

end Tally

namespace Grammar

/-- What a grammar without attributes reads has an even tally. -/
structure Tallies (g : Grammar) : Prop where
  whole : ∀ anchor lexemes, Tally [g.whole anchor lexemes] lexemes []
  operation : ∀ level lexeme rest,
    Tally [(g.operation level lexeme rest).1] (lexeme :: rest) (g.operation level lexeme rest).2
  climb : ∀ level node rest lexemes, Tally [node] lexemes rest →
    Tally [(g.climb level node rest).1] lexemes (g.climb level node rest).2
  operand : ∀ lexeme rest,
    Tally [(g.operand lexeme rest).1] (lexeme :: rest) (g.operand lexeme rest).2
  primary : ∀ lexeme rest,
    Tally [(g.primary lexeme rest).1] (lexeme :: rest) (g.primary lexeme rest).2
  chain : ∀ node rest lexemes, Tally [node] lexemes rest →
    Tally [(g.chain node rest).1] lexemes (g.chain node rest).2
  items : ∀ rest, Tally (g.items rest).1 rest (g.items rest).2
  arguments : ∀ rest, Tally (g.arguments rest).1 rest (g.arguments rest).2
  attributes : ∀ rest, g.attributes rest = ([], rest)
  clauses : ∀ finish rest,
    Tally ((g.clauses finish rest).1.flatMap Node.clauseParts) rest (g.clauses finish rest).2
  statements : ∀ lexemes, Tally (g.statements lexemes) lexemes []

namespace Tallies

variable {g : Grammar} (tallies : g.Tallies) {lexemes rest : List Lexeme}
include tallies

/-! ## Lists and subscripts -/

theorem readElements (anchor : Position) (lexemes : List Lexeme) :
    Tally (g.readElements anchor lexemes) lexemes [] := by
  rw [Grammar.readElements, List.filterMap_eq_flatMap_toList]
  refine Tally.segments (by decide) fun segment _ => ?_
  split
  · next empty =>
    rw [List.isEmpty_iff.mp empty]
    exact .refl []
  · split
    · next key spelled =>
      obtain ⟨separator, -, spelled⟩ := Option.bind_eq_some_iff.mp spelled
      exact .node rfl rfl (Tally.barewordKey? spelled)
    · exact tallies.whole _ _

theorem readSubscript (anchor : Position) (lexemes : List Lexeme) :
    Tally [g.readSubscript anchor lexemes] lexemes [] := by
  simp only [Grammar.readSubscript]
  split
  · exact .fault (List.nil_subset _)
  · split
    · exact .node rfl rfl (tallies.readElements anchor lexemes)
    · exact tallies.whole anchor lexemes

theorem readIndex (opener : Lexeme) (lexemes : List Lexeme) :
    Tally [g.readIndex opener lexemes] lexemes [] := by
  simp only [Grammar.readIndex, Grammar.readHashKey]
  split
  · exact tallies.readSubscript _ _
  · split
    · next spelled => exact .node rfl rfl (Tally.barewordKey? spelled)
    · exact tallies.readSubscript _ _

theorem readGroupElements (opener : Lexeme) (rest : List Lexeme) :
    Tally (g.readGroupElements opener rest).1 (opener :: rest)
      (g.readGroupElements opener rest).2 :=
  Tally.readGroup id (tallies.readElements opener.position) fun _ => rfl

theorem readArguments (rest : List Lexeme) :
    Tally (g.readArguments rest).1 rest (g.readArguments rest).2 := by
  rcases rest with _ | ⟨lexeme, rest⟩
  · exact .refl []
  · have first := tallies.operation Level.assignment lexeme rest
    simp only [Grammar.readArguments]
    split
    · split
      · exact .trans first (.trans (Tally.dropWhile_comma _) (tallies.arguments _))
      · exact first
    · exact .refl _

theorem readCallArguments (rest : List Lexeme) :
    Tally (g.readCallArguments rest).1 rest (g.readCallArguments rest).2 := by
  rcases rest with _ | ⟨opener, rest⟩
  · exact .refl []
  · simp only [Grammar.readCallArguments]
    split
    · exact tallies.readGroupElements opener rest
    · exact tallies.readArguments _

theorem readMethodArguments (rest : List Lexeme) :
    Tally (g.readMethodArguments rest).1 rest (g.readMethodArguments rest).2 := by
  rcases rest with _ | ⟨opener, rest⟩
  · exact .refl []
  · simp only [Grammar.readMethodArguments]
    split
    · exact tallies.readGroupElements opener rest
    · exact .refl _

/-! ## Blocks and signatures -/

theorem readBlock (finish : Position) (rest : List Lexeme) :
    Tally (g.readBlock finish rest).1 rest (g.readBlock finish rest).2 := by
  rcases rest with _ | ⟨opener, rest⟩
  · exact .fault (List.nil_subset _)
  · simp only [Grammar.readBlock]
    split
    · exact Tally.readGroup id tallies.statements fun _ => rfl
    · exact .fault (List.nil_subset _)

theorem readDefault (anchor : Position) (rest : List Lexeme) :
    Tally (g.readDefault anchor rest).toList rest [] := by
  rcases rest with _ | ⟨op, rest⟩
  · exact .refl []
  · simp only [Grammar.readDefault]
    split
    · next role =>
      split
      · exact .fault (List.nil_subset _)
      · exact .skip_head (Lexeme.silent_of_default role) (tallies.whole _ _)
    · exact .fault (List.nil_subset _)

theorem readParameter (anchor : Position) (segment : List Lexeme) :
    Tally [g.readParameter anchor segment] segment [] := by
  simp only [Grammar.readParameter]
  split
  · next holder spelled =>
    obtain ⟨first, head, spelled⟩ := Option.bind_eq_some_iff.mp spelled
    obtain ⟨rest, rfl⟩ := List.head?_eq_some_iff.mp head
    exact .node rfl rfl (.trans (Tally.asVar? spelled) (tallies.readDefault anchor rest))
  · exact .fault (List.nil_subset _)

/-- The parameters of a signature, from the inside of its parentheses. -/
theorem parameters (anchor : Position) (lexemes : List Lexeme) :
    Tally (((splitTopLevel lexemes .comma).filter fun segment => !segment.isEmpty).map
      (g.readParameter anchor)) lexemes [] := by
  have each (segments : List Segment) :
      (((segments.map Segment.lexemes).filter fun segment => !segment.isEmpty).map
        (g.readParameter anchor)) = segments.flatMap fun segment =>
          if segment.lexemes.isEmpty then [] else [g.readParameter anchor segment.lexemes] := by
    induction segments with
    | nil => rfl
    | cons segment segments ih =>
      rw [List.map_cons, List.filter_cons, List.flatMap_cons, ← ih]
      cases segment.lexemes.isEmpty <;> rfl
  rw [splitTopLevel, each]
  refine Tally.segments (by decide) fun segment _ => ?_
  split
  · next empty =>
    rw [List.isEmpty_iff.mp empty]
    exact .refl []
  · exact tallies.readParameter anchor _

theorem readParameters (rest : List Lexeme) :
    Tally (g.readParameters rest).1 rest (g.readParameters rest).2 := by
  rcases rest with _ | ⟨opener, rest⟩
  · exact .refl []
  · simp only [Grammar.readParameters]
    split
    · exact Tally.readGroup id (tallies.parameters opener.position) fun _ => rfl
    · exact .refl _

/-! ## Primaries -/

theorem readRight (op : Lexeme) (level : Nat) (rest : List Lexeme) :
    Tally [(g.readRight op level rest).1] rest (g.readRight op level rest).2 := by
  rcases rest with _ | ⟨lexeme, rest⟩
  · exact .fault (List.nil_subset _)
  · exact tallies.operation level lexeme rest

theorem readDereference (sigil : Sigil) (lexeme : Lexeme) (rest : List Lexeme) :
    Tally [(g.readDereference sigil lexeme rest).1] rest
      (g.readDereference sigil lexeme rest).2 := by
  rcases rest with _ | ⟨next, after⟩
  · exact .fault (List.nil_subset _)
  · -- What is dereferenced is the one part of the tree.
    have wrap {target : Node} {left : List Lexeme} (tally : Tally [target] (next :: after) left) :
        Tally [if lexeme.text = "$#" then .leading "$#" target
          else .dereference sigil target] (next :: after) left := by
      split <;> exact .node rfl rfl tally
    simp only [Grammar.readDereference]
    split
    · exact wrap (Tally.readGroup (fun tree => [tree]) (tallies.whole _) fun _ => rfl)
    · split
      · exact wrap (tallies.primary next after)
      · exact .fault (List.Subset.refl _)

theorem readDeclaration (lexeme : Lexeme) (rest : List Lexeme) :
    Tally [(g.readDeclaration lexeme rest).1] rest (g.readDeclaration lexeme rest).2 := by
  rcases rest with _ | ⟨next, rest⟩
  · exact .node rfl rfl (.fault (List.nil_subset _))
  · simp only [Grammar.readDeclaration]
    split
    · refine .node rfl rfl ?_
      rw [Node.declare, Node.children, Option.toList_none, List.append_nil]
      exact tallies.readGroupElements next rest
    · exact .node rfl rfl (tallies.chain _ _ _ (tallies.primary next rest))

theorem readParenthesized (opener : Lexeme) (rest : List Lexeme) :
    Tally [(g.readParenthesized opener rest).1] (opener :: rest)
      (g.readParenthesized opener rest).2 := by
  refine Tally.readGroup (fun tree => [tree]) (fun inner => ?_) fun _ => rfl
  split
  · next empty =>
    rw [List.isEmpty_iff.mp empty]
    exact .node rfl rfl (.refl [])
  · split
    · exact .node rfl rfl (tallies.readElements _ _)
    · exact tallies.whole _ _

theorem readFilehandle (rest : List Lexeme) :
    Tally (g.readFilehandle rest).1.toList rest (g.readFilehandle rest).2 := by
  rcases rest with _ | ⟨first, rest⟩
  · exact .refl []
  · simp only [Grammar.readFilehandle]
    split
    · exact Tally.readGroup Option.toList (tallies.whole _) fun _ => rfl
    · next role =>
      split
      · exact .refl _
      · exact .leaf rfl rfl rfl (Lexeme.silent_of_role role (by decide))
    · split
      · rcases spelled : first.asVar? with _ | holder
        · exact .silent (Lexeme.silent_of_asVar? spelled)
        · exact Tally.asVar? spelled
      · exact .refl _
    · exact .refl _

theorem readCall (name : String) (rest : List Lexeme) :
    Tally [(g.readCall name rest).1] rest (g.readCall name rest).2 :=
  .node rfl rfl (tallies.readCallArguments rest)

theorem readAnonymousSub (keyword : Lexeme) (rest : List Lexeme) :
    Tally [(g.readAnonymousSub keyword rest).1] rest (g.readAnonymousSub keyword rest).2 := by
  simp only [Grammar.readAnonymousSub, tallies.attributes]
  exact .node rfl rfl (.trans (tallies.readParameters rest) (tallies.readBlock _ _))

theorem readRequire (keyword : Lexeme) (rest : List Lexeme) :
    Tally [(g.readRequire keyword rest).1] rest (g.readRequire keyword rest).2 := by
  simp only [Grammar.readRequire]
  split
  · next word found =>
    obtain ⟨first, isWord⟩ := Option.filter_eq_some_iff.mp found
    obtain ⟨rest, rfl⟩ := List.head?_eq_some_iff.mp first
    exact .node rfl rfl (.leaf rfl rfl rfl (Lexeme.silent_of_word isWord))
  · exact .node rfl rfl (tallies.readRight _ _ _)

theorem readOutput (output : Output) (rest : List Lexeme) :
    Tally [(g.readOutput output rest).1] rest (g.readOutput output rest).2 :=
  .node rfl rfl (.trans (tallies.readFilehandle rest) (tallies.readArguments _))

theorem readAlarm (alarm : Alarm) (rest : List Lexeme) :
    Tally [(g.readAlarm alarm rest).1] rest (g.readAlarm alarm rest).2 :=
  .node rfl rfl (tallies.readCallArguments rest)

theorem readKeyword (keyword : Lexeme) (rest : List Lexeme) :
    Tally [(g.readKeyword keyword rest).1] rest (g.readKeyword keyword rest).2 := by
  simp only [Grammar.readKeyword]
  split
  · split
    · exact tallies.readCall _ _
    · exact tallies.readOutput _ _
  · split
    · exact tallies.readCall _ _
    · exact tallies.readOutput _ _
  · split
    · exact tallies.readCall _ _
    · split
      · exact .node rfl rfl (tallies.readBlock _ _)
      · exact .node rfl rfl (tallies.readRight _ _ _)
  · split
    · exact tallies.readCall _ _
    · exact tallies.readRequire _ _
  · exact tallies.readAnonymousSub _ _
  · exact tallies.readAlarm _ _
  · exact tallies.readAlarm _ _
  · have values := tallies.readArguments rest
    exact .node rfl rfl values.valueOf
  · exact Tally.readJump .last rest
  · exact Tally.readJump .next rest
  · exact Tally.readJump .redo rest
  · exact .fault (List.Subset.refl _)

theorem readNamedOperand (rest : List Lexeme) :
    Tally (g.readNamedOperand rest).1 rest (g.readNamedOperand rest).2 := by
  rcases rest with _ | ⟨lexeme, rest⟩
  · exact .refl []
  · simp only [Grammar.readNamedOperand]
    split
    · exact tallies.operation _ lexeme rest
    · exact .refl _

theorem readLeadingBlock (name : Lexeme) (rest : List Lexeme) :
    Tally (g.readLeadingBlock name rest).1 rest (g.readLeadingBlock name rest).2 := by
  simp only [Grammar.readLeadingBlock]
  split
  · have block : Tally [.block none (g.readBlock (lastPosition name rest) rest).1] rest
        (g.readBlock (lastPosition name rest) rest).2 := .node rfl rfl (tallies.readBlock _ _)
    split
    · next comma =>
      generalize (g.readBlock (lastPosition name rest) rest).2 = left at *
      rcases left with _ | ⟨next, left⟩
      · contradiction
      · have role : next.category = .comma := by simpa [nextIs] using comma
        exact block.skip (Lexeme.silent_of_role role (by decide))
    · exact block
  · exact .refl _

theorem readBuiltin (name : Lexeme) (rest : List Lexeme) :
    Tally [(g.readBuiltin name rest).1] rest (g.readBuiltin name rest).2 := by
  simp only [Grammar.readBuiltin]
  split
  · exact .node rfl rfl (.refl _)
  · split
    · exact .node rfl rfl (tallies.readNamedOperand rest)
    · exact .node rfl rfl (.trans (tallies.readLeadingBlock name rest) (tallies.readArguments _))

theorem readWord (name : Lexeme) (rest : List Lexeme) :
    Tally [(g.readWord name rest).1] rest (g.readWord name rest).2 := by
  simp only [Grammar.readWord]
  split
  · exact .node rfl rfl (.refl _)
  · split
    · exact tallies.readCall _ _
    · split
      · exact tallies.readBuiltin _ _
      · split
        · exact .node rfl rfl (tallies.readArguments _)
        · exact .node rfl rfl (.refl _)

theorem readPrimary (lexeme : Lexeme) (rest : List Lexeme) :
    Tally [(g.readPrimary lexeme rest).1] (lexeme :: rest) (g.readPrimary lexeme rest).2 := by
  have spelled {kind : TokenKind} (same : lexeme.token.kind = kind)
      (other : ∀ sigil, kind ≠ .var sigil) : lexeme.Silent :=
    Lexeme.silent_of_kind fun sigil var => other sigil (same.symm.trans var)
  have roled {role : Category} (same : lexeme.category = role) (other : role ≠ .var) :
      lexeme.Silent := Lexeme.silent_of_role same other
  simp only [Grammar.readPrimary]
  split
  · next kind => exact .leaf rfl rfl rfl (spelled kind (by simp))
  · next kind => exact .leaf rfl rfl rfl (spelled kind (by simp))
  · next words kind =>
    exact .node rfl rfl (.skip_head (spelled kind (by simp)) (.plains words rest))
  · next kind => exact .leaf rfl rfl rfl (spelled kind (by simp))
  · next kind => exact Tally.asVar? (by rw [Lexeme.asVar?, kind])
  · next kind => exact .skip_head (spelled kind (by simp)) (tallies.readDereference _ _ _)
  · split
    · next role => exact .leaf rfl rfl rfl (roled role (by decide))
    · exact Tally.readGroup (fun tree => [tree])
        (fun inner => .node rfl rfl (tallies.readElements _ inner)) fun _ => rfl
    · exact Tally.readGroup (fun tree => [tree])
        (fun inner => .node rfl rfl (tallies.readElements _ inner)) fun _ => rfl
    · exact tallies.readParenthesized _ _
    · next role => exact .skip_head (roled role (by decide)) (tallies.readDeclaration _ _)
    · next role => exact .skip_head (roled role (by decide)) (tallies.readKeyword _ _)
    · next role => exact .skip_head (roled role (by decide)) (tallies.readWord _ _)
    · next role => exact .skip_head (roled role (by decide)) (tallies.readWord _ _)
    · exact .fault (List.subset_cons_self ..)

/-! ## Chains -/

theorem readDirectSubscript {base : Node} {opener : Lexeme}
    (tally : Tally [base] lexemes (opener :: rest)) :
    Tally [(g.readDirectSubscript base opener rest).1] lexemes
      (g.readDirectSubscript base opener rest).2 :=
  Tally.readGroup_behind tally (fun inner => [g.readIndex opener inner]) (tallies.readIndex opener)
    fun _ _ parts => .indexed opener parts

theorem readPostfixDeref {base : Node} {lexeme : Lexeme}
    (tally : Tally [base] lexemes rest) (sigil : Sigil) :
    Tally [(g.readPostfixDeref base lexeme sigil rest).1] lexemes
      (g.readPostfixDeref base lexeme sigil rest).2 := by
  rcases rest with _ | ⟨next, rest⟩
  · exact .fault (List.nil_subset _)
  · simp only [Grammar.readPostfixDeref]
    split
    · next star => exact .node rfl rfl (tally.skip (Lexeme.silent_of_operator star))
    · split
      · exact Tally.readGroup_behind tally (fun inner => [g.readIndex next inner])
          (tallies.readIndex next) fun _ _ parts => .node rfl rfl parts
      · exact .fault tally.within

theorem readMethod {invocant : Node} {name : Lexeme} (names : name.SpellsMethod)
    (tally : Tally [invocant] lexemes (name :: rest)) :
    Tally [(g.readMethod invocant name rest).1] lexemes (g.readMethod invocant name rest).2 :=
  tally.called names (tallies.readMethodArguments rest)

theorem readArrow {base : Node} {arrow : Lexeme} (tally : Tally [base] lexemes rest) :
    Tally [(g.readArrow base arrow rest).1] lexemes (g.readArrow base arrow rest).2 := by
  rcases rest with _ | ⟨next, rest⟩
  · exact .fault (List.nil_subset _)
  · have behind : rest ⊆ lexemes :=
      List.Subset.trans (List.subset_cons_self ..) tally.within
    simp only [Grammar.readArrow]
    split
    · exact Tally.readGroup_behind tally (fun inner => [g.readIndex next inner])
        (tallies.readIndex next) fun _ _ parts => .node rfl rfl parts
    · exact Tally.readGroup_behind tally (fun inner => [g.readIndex next inner])
        (tallies.readIndex next) fun _ _ parts => .node rfl rfl parts
    · exact Tally.readGroup_behind tally (g.readElements next.position)
        (tallies.readElements next.position) fun _ _ parts => .node rfl rfl parts
    · next role _ =>
      exact tallies.readPostfixDeref (tally.skip (Lexeme.silent_of_role role (by decide))) _
    · exact .fault behind
    · next role => exact tallies.readMethod (.inl role) tally
    · next word _ _ _ _ _ => exact tallies.readMethod (.inr (decide_eq_true word)) tally
    · exact .fault behind

theorem readChain {node : Node} (tally : Tally [node] lexemes rest) :
    Tally [(g.readChain node rest).1] lexemes (g.readChain node rest).2 := by
  rcases rest with _ | ⟨next, rest⟩
  · exact tally
  · simp only [Grammar.readChain]
    split
    · split
      · exact tallies.chain _ _ _ (tallies.readDirectSubscript tally)
      · exact tally
    · split
      · exact tallies.chain _ _ _ (tallies.readDirectSubscript tally)
      · exact tally
    · next role =>
      exact tallies.chain _ _ _
        (tallies.readArrow (tally.skip (Lexeme.silent_of_role role (by decide))))
    · next role =>
      split
      · have stepped := tally.skip (Lexeme.silent_of_role role (by decide))
        exact tallies.chain _ _ _ (.node rfl rfl stepped)
      · exact tally
    · exact tally

/-! ## Operators -/

theorem readAtom (lexeme : Lexeme) (rest : List Lexeme) :
    Tally [(g.readAtom lexeme rest).1] (lexeme :: rest) (g.readAtom lexeme rest).2 :=
  tallies.readChain (tallies.readPrimary lexeme rest)

theorem readLeading (op : Lexeme) (rest : List Lexeme) :
    Tally [(g.readLeading op rest).1] rest (g.readLeading op rest).2 := by
  rcases rest with _ | ⟨lexeme, rest⟩
  · exact .node rfl rfl (.fault (List.nil_subset _))
  · simp only [Grammar.readLeading]
    split
    · exact .node rfl rfl (tallies.operand lexeme rest)
    · exact .node rfl rfl (tallies.operation _ lexeme rest)

theorem readOperand (lexeme : Lexeme) (rest : List Lexeme) :
    Tally [(g.readOperand lexeme rest).1] (lexeme :: rest) (g.readOperand lexeme rest).2 := by
  simp only [Grammar.readOperand]
  split
  · next role =>
    refine .skip_head (Lexeme.silent_of_role role (by decide)) ?_
    split
    · exact .node rfl rfl (tallies.readRight _ _ _)
    · exact tallies.readLeading _ _
  · next role =>
    have quiet : lexeme.Silent := Lexeme.silent_of_role role (by decide)
    split
    · next next after _ =>
      refine .skip_head quiet ?_
      split
      · exact tallies.chain _ _ _ (tallies.primary next after)
      · exact tallies.readLeading _ _
    · exact .skip_head quiet (tallies.readLeading _ _)
    · exact .skip_head quiet (tallies.readLeading _ _)
    · exact tallies.readAtom _ _
  · exact tallies.readAtom _ _

theorem readBranch (anchor : Position) (lexemes : List Lexeme) :
    Tally [g.readBranch anchor lexemes] lexemes [] := by
  simp only [Grammar.readBranch]
  split
  · exact .fault (List.nil_subset _)
  · exact tallies.whole _ _

theorem readTernary {condition : Node} (question : Lexeme)
    (tally : Tally [condition] lexemes rest) :
    Tally [(g.readTernary condition question rest).1] lexemes
      (g.readTernary condition question rest).2 := by
  simp only [Grammar.readTernary]
  split
  · refine .faulty (List.nil_subset _) ?_
    simp [Node.faults, Node.fault]
  · next cut found =>
    have colon : cut.found.Silent :=
      Lexeme.silent_of_role (cutAtColon?_found found) (by decide)
    have whole := cutAtColon?_whole found
    rw [Cut.whole] at whole
    rw [← whole] at tally
    have branch := (tallies.readBranch question.position cut.before).all_before
      (cut.found :: cut.after)
    refine .node rfl rfl (.trans tally (.trans branch (.skip_head colon ?_)))
    generalize cut.after = after at *
    rcases after with _ | ⟨lexeme, after⟩
    · exact .fault (List.nil_subset _)
    · exact tallies.operation _ lexeme after

theorem readClimb (level : Nat) {node : Node} (tally : Tally [node] lexemes rest) :
    Tally [(g.readClimb level node rest).1] lexemes (g.readClimb level node rest).2 := by
  rcases rest with _ | ⟨next, rest⟩
  · exact tally
  · simp only [Grammar.readClimb]
    split
    · next role =>
      split
      · exact tally
      · have behind := tally.skip (Lexeme.silent_of_role role (by decide))
        exact tallies.climb _ _ _ _ (tallies.readTernary next behind)
    · next role =>
      split
      · exact tally
      · next binding _ =>
        have behind := tally.skip (Lexeme.silent_of_role role (by decide))
        have right := tallies.readRight next binding.rightLevel rest
        exact tallies.climb _ _ _ _ (Tally.binary next.text (.trans behind right))
    · exact tally

theorem readOperation (level : Nat) (lexeme : Lexeme) (rest : List Lexeme) :
    Tally [(g.readOperation level lexeme rest).1] (lexeme :: rest)
      (g.readOperation level lexeme rest).2 :=
  tallies.readClimb level (tallies.readOperand lexeme rest)

theorem readItems (rest : List Lexeme) :
    Tally (g.readItems rest).1 rest (g.readItems rest).2 := by
  rcases rest with _ | ⟨comma, rest⟩
  · exact .refl []
  · simp only [Grammar.readItems]
    split
    · next role =>
      have quiet : comma.Silent := Lexeme.silent_of_role role (by decide)
      rcases rest with _ | ⟨lexeme, after⟩
      · exact .silent quiet
      · refine .skip_head quiet ?_
        dsimp only
        split
        · exact tallies.items _
        · exact .trans (tallies.operation _ lexeme after) (tallies.items _)
    · exact .refl _

theorem readWhole (anchor : Position) (lexemes : List Lexeme) :
    Tally [g.readWhole anchor lexemes] lexemes [] := by
  rcases lexemes with _ | ⟨lexeme, rest⟩
  · exact .fault (List.nil_subset _)
  · have first := tallies.readOperation Level.lowest lexeme rest
    simp only [Grammar.readWhole]
    split
    · exact Tally.finish (.node rfl rfl (.trans first (tallies.readItems _)))
    · exact Tally.finish first

end Tallies

end Grammar

end SigilScript
