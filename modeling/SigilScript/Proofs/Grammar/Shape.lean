import SigilScript.Proofs.Completion
import SigilScript.Proofs.Grammar.Complete
import SigilScript.Proofs.Scan.Braces

/-! # The shape of statements without faults

A statement that is read without a fault and ends in a block shows what stands before the block: a
closing parenthesis, a keyword, a version or a name. Each production says so of what it reads, and
the statement says so of the whole.
-/

namespace SigilScript

/-- Whether a lexeme can stand right before the block of a statement with a head. -/
inductive Lexeme.Introduces (lexeme : Lexeme) : Prop where
  | role (role : lexeme.category ∈ [.rightParen, .controlKeyword, .keyword, .identifier]) :
    lexeme.Introduces
  | version (number : lexeme.token.kind = .number) : lexeme.Introduces
  | word (word : lexeme.isWord = true) : lexeme.Introduces

/-- Whether lexemes end in a block that something introduces. -/
def EndsInBlock (lexemes : List Lexeme) : Prop :=
  ∃ (front : List Lexeme) (intro : Lexeme) (block : List Lexeme),
    lexemes = front ++ intro :: block ∧ intro.Introduces ∧ IsBlock block

/-- Whether lexemes up to others end in a block. -/
def Closes (lexemes after : List Lexeme) : Prop :=
  ∃ before : List Lexeme, lexemes = before ++ after ∧ EndsInBlock before

/-- Whether what stands before others, if anything does, could introduce a block there. -/
def LeadsTo (lexemes after : List Lexeme) : Prop :=
  ∃ taken : List Lexeme, lexemes = taken ++ after ∧
    ∀ last, taken.getLast? = some last → last.Introduces

variable {lexemes between after rest : List Lexeme} {opener lexeme keyword : Lexeme}

namespace LeadsTo

theorem refl (lexemes : List Lexeme) : LeadsTo lexemes lexemes :=
  ⟨[], rfl, fun _ nothing => by contradiction⟩

theorem single (introduces : lexeme.Introduces) (rest : List Lexeme) :
    LeadsTo (lexeme :: rest) rest := by
  refine ⟨[lexeme], rfl, fun last same => ?_⟩
  obtain rfl := Option.some.inj same
  exact introduces

theorem trans (first : LeadsTo lexemes between) (second : LeadsTo between after) :
    LeadsTo lexemes after := by
  obtain ⟨taken, rfl, introduces⟩ := first
  obtain ⟨taken', rfl, introduces'⟩ := second
  refine ⟨taken ++ taken', (List.append_assoc ..).symm, fun last same => ?_⟩
  rw [List.getLast?_append] at same
  rcases ends : taken'.getLast? with _ | last'
  · rw [ends, Option.none_or] at same
    exact introduces last same
  · rw [ends, Option.some_or] at same
    exact introduces' last (ends.trans same)

theorem suffix (leads : LeadsTo lexemes after) : after <:+ lexemes := by
  obtain ⟨taken, rfl, -⟩ := leads
  exact List.suffix_append taken after

/-- A group in parentheses can be followed by a block, whatever stands before it. -/
theorem group (front : List Lexeme) (partner : opener.category.closer? = some .rightParen)
    {inner : List Lexeme} (taken : takeGroup opener rest = (.ok inner, after)) :
    LeadsTo (front ++ opener :: rest) after := by
  obtain ⟨closer, same, rfl⟩ := takeGroup_ok taken
  rw [partner] at same
  refine ⟨front ++ opener :: (inner ++ [closer]), by simp, fun last ends => ?_⟩
  rw [← List.cons_append, ← List.append_assoc, List.getLast?_concat] at ends
  obtain rfl := Option.some.inj ends
  exact .role (by rw [← Option.some.inj same]; decide)

/-- Behind what introduces it, a block ends the lexemes. -/
theorem closes (leads : LeadsTo rest between) (introduces : keyword.Introduces)
    {block : List Lexeme} (same : between = block ++ after) (isBlock : IsBlock block) :
    Closes (keyword :: rest) after := by
  obtain ⟨taken, rfl, ends⟩ := leads
  refine ⟨keyword :: (taken ++ block), by simp [same], ?_⟩
  rcases List.eq_nil_or_concat taken with rfl | ⟨front, last, rfl⟩
  · exact ⟨[], keyword, block, rfl, introduces, isBlock⟩
  · refine ⟨keyword :: front, last, block, by simp, ends last ?_, isBlock⟩
    rw [List.concat_eq_append, List.getLast?_concat]

end LeadsTo

namespace Closes

theorem trans (first : Closes lexemes between) (second : between = after ∨ Closes between after) :
    Closes lexemes after := by
  obtain ⟨before, rfl, ends⟩ := first
  rcases second with rfl | ⟨before', rfl, front, intro, block, rfl, introduces, isBlock⟩
  · exact ⟨before, rfl, ends⟩
  · exact ⟨before ++ (front ++ intro :: block), (List.append_assoc ..).symm,
      before ++ front, intro, block, (List.append_assoc ..).symm, introduces, isBlock⟩

theorem endsInBlock (closes : Closes lexemes []) : EndsInBlock lexemes := by
  obtain ⟨before, same, ends⟩ := closes
  rwa [same, List.append_nil]

end Closes

namespace Grammar

variable {g : Grammar} {finish : Position}

/-- The group that a brace opens is a block. -/
theorem isBlock_of_taken {inner : List Lexeme} (opens : opener.category = .leftBrace)
    (taken : takeGroup opener rest = (.ok inner, after)) :
    ∃ closer : Lexeme,
      rest = inner ++ closer :: after ∧ IsBlock (opener :: (inner ++ [closer])) := by
  obtain ⟨closer, found, partner, cut⟩ := takeGroup_cut taken
  rw [opens] at partner cut
  obtain rfl := Option.some.inj partner
  exact ⟨found, (cutAtPartner?_whole cut).symm,
    .braces opens (cutAtPartner?_found cut) (.of_cutAtPartner? cut)⟩

theorem readBlock_sound {body : List Node} (read : g.readBlock finish rest = (body, after))
    (sound : Node.faultsOfAll body = []) :
    ∃ block : List Lexeme, rest = block ++ after ∧ IsBlock block := by
  rcases rest with _ | ⟨opener, rest⟩
  · obtain ⟨rfl, rfl⟩ := Prod.mk.inj read
    contradiction
  · simp only [readBlock] at read
    split at read
    · next opens =>
      rcases readGroup_cases read with ⟨inner, taken, -⟩ | ⟨fault, -, rfl⟩
      · obtain ⟨closer, rfl, isBlock⟩ := isBlock_of_taken opens taken
        exact ⟨opener :: (inner ++ [closer]), by simp, isBlock⟩
      · contradiction
    · obtain ⟨rfl, rfl⟩ := Prod.mk.inj read
      contradiction

theorem readCondition_sound {condition : Node}
    (read : g.readCondition keyword rest = (condition, after)) (sound : condition.faults = []) :
    LeadsTo rest after := by
  rcases rest with _ | ⟨opener, rest⟩
  · obtain ⟨rfl, rfl⟩ := Prod.mk.inj read
    contradiction
  · simp only [readCondition] at read
    split at read
    · next opens =>
      rcases readGroup_cases read with ⟨inner, taken, -⟩ | ⟨fault, -, rfl⟩
      · exact .group [] (by rw [opens]; rfl) taken
      · contradiction
    · obtain ⟨rfl, rfl⟩ := Prod.mk.inj read
      contradiction

/-- A condition and a block behind what introduces them. -/
theorem closes_of_condition {condition : Node} {body : List Node}
    (introduces : keyword.Introduces)
    (first : g.readCondition keyword rest = (condition, between))
    (second : g.readBlock finish between = (body, after))
    (sound : condition.faults = []) (sound' : Node.faultsOfAll body = []) :
    Closes (keyword :: rest) after := by
  obtain ⟨block, same, isBlock⟩ := readBlock_sound second sound'
  exact (readCondition_sound first sound).closes introduces same isBlock

/-- A block right behind what introduces it. -/
theorem closes_of_block {body : List Node} (introduces : keyword.Introduces)
    (read : g.readBlock finish rest = (body, after)) (sound : Node.faultsOfAll body = []) :
    Closes (keyword :: rest) after := by
  obtain ⟨block, same, isBlock⟩ := readBlock_sound read sound
  exact (LeadsTo.refl rest).closes introduces same isBlock

theorem introduces_of_spelled {category : Category} {text : String}
    (spelled : keyword.isSpelled category text = true)
    (role : category ∈ [.rightParen, .controlKeyword, .keyword, .identifier]) :
    keyword.Introduces := by
  simp only [Lexeme.isSpelled, Bool.and_eq_true, decide_eq_true_eq] at spelled
  exact .role (by rwa [spelled.1])

theorem readContinuation_sound {category : Category} {text : String} {body : Option (List Node)}
    (role : category ∈ [.rightParen, .controlKeyword, .keyword, .identifier])
    (read : g.readContinuation finish category text rest = (body, after))
    (sound : Node.faultsOfBlock body = []) : rest = after ∨ Closes rest after := by
  rcases rest with _ | ⟨next, rest⟩
  · exact .inl (Prod.mk.inj read).2
  · simp only [readContinuation] at read
    split at read
    · next spelled =>
      rcases block : g.readBlock finish rest with ⟨body', after'⟩
      rw [block] at read
      obtain ⟨rfl, rfl⟩ := Prod.mk.inj read
      exact .inr (closes_of_block (introduces_of_spelled spelled role) block sound)
    · exact .inl (Prod.mk.inj read).2

theorem readClauses_sound {clauses : List (Clause Node)}
    (read : full.readClauses finish rest = (clauses, after))
    (sound : Node.faultsOfClauses clauses = []) : rest = after ∨ Closes rest after := by
  induction clauses generalizing rest with
  | nil =>
    rcases rest with _ | ⟨keyword, rest⟩
    · exact .inl (Prod.mk.inj read).2
    · simp only [readClauses] at read
      split at read
      · simp at read
      · exact .inl (Prod.mk.inj read).2
  | cons clause more ih =>
    rcases rest with _ | ⟨keyword, rest⟩
    · simp [readClauses] at read
    · simp only [readClauses] at read
      simp only [full_clauses] at read
      split at read
      · next spelled =>
        rcases condition : full.readCondition keyword rest with ⟨test, between⟩
        rw [condition] at read
        dsimp only at read
        rcases block : full.readBlock finish between with ⟨body, behind⟩
        rw [block] at read
        dsimp only at read
        rcases further : full.readClauses finish behind with ⟨clauses, last⟩
        rw [further] at read
        simp only [Prod.mk.injEq, List.cons.injEq] at read
        obtain ⟨⟨rfl, rfl⟩, rfl⟩ := read
        simp only [Node.faultsOfClauses, List.append_eq_nil_iff] at sound
        have closes := closes_of_condition (introduces_of_spelled spelled (by decide)) condition
          block sound.1.1 sound.1.2
        exact .inr (closes.trans (ih further sound.2))
      · simp at read

/-! ## Conditionals and loops -/

variable {node : Node} {polarity : Polarity}

theorem readConditional_sound (introduces : keyword.Introduces)
    (read : full.readConditional polarity keyword rest = (node, after)) (sound : node.faults = []) :
    Closes (keyword :: rest) after := by
  simp only [readConditional] at read
  rcases condition : full.readCondition keyword rest with ⟨test, between⟩
  rw [condition] at read
  dsimp only at read
  rcases block : full.readBlock (lastPosition keyword rest) between with ⟨body, behind⟩
  rw [block] at read
  dsimp only at read
  rcases further : full.readClauses (lastPosition keyword rest) behind with ⟨clauses, chained⟩
  rw [further] at read
  dsimp only at read
  rcases last : full.readContinuation (lastPosition keyword rest) .controlKeyword "else" chained
    with ⟨otherwise, final⟩
  rw [last] at read
  obtain ⟨rfl, rfl⟩ := Prod.mk.inj read
  simp only [Node.faults, List.append_eq_nil_iff] at sound
  obtain ⟨⟨⟨soundTest, soundBody⟩, soundClauses⟩, soundOtherwise⟩ := sound
  have closes := closes_of_condition introduces condition block soundTest soundBody
  exact (closes.trans (readClauses_sound further soundClauses)).trans
    (readContinuation_sound (by decide) last soundOtherwise)

/-- A tree of a condition and a block, and of nothing else. -/
theorem conditioned_sound {make : Node → List Node → Node}
    (parts : ∀ test body, (make test body).faults = test.faults ++ Node.faultsOfAll body)
    (introduces : keyword.Introduces)
    (read : (make (g.readCondition keyword rest).1
        (g.readBlock finish (g.readCondition keyword rest).2).1,
      (g.readBlock finish (g.readCondition keyword rest).2).2) = (node, after))
    (sound : node.faults = []) : Closes (keyword :: rest) after := by
  obtain ⟨rfl, rfl⟩ := Prod.mk.inj read
  rw [parts, List.append_eq_nil_iff] at sound
  exact closes_of_condition introduces rfl rfl sound.1 sound.2

theorem readWhile_sound (introduces : keyword.Introduces)
    (read : g.readWhile polarity keyword rest = (node, after)) (sound : node.faults = []) :
    Closes (keyword :: rest) after :=
  conditioned_sound (fun _ _ => rfl) introduces read sound

theorem readTopic_sound {topic : Topic} (introduces : keyword.Introduces)
    (read : g.readTopic topic keyword rest = (node, after)) (sound : node.faults = []) :
    Closes (keyword :: rest) after :=
  conditioned_sound (fun _ _ => rfl) introduces read sound

/-- The parentheses of a loop, behind its variable. -/
theorem readLoopGroup_ok {inner : List Lexeme} (front : List Lexeme)
    (read : readLoopGroup keyword rest = (.ok inner, after)) : LeadsTo (front ++ rest) after := by
  obtain ⟨opener, behind, rfl, opens, taken⟩ := readLoopGroup_of_ok read
  exact .group front (by rw [opens]; rfl) taken

theorem readLoopGroup_error {fault : Node}
    (read : readLoopGroup keyword rest = (.error fault, after)) : fault.faults ≠ [] := by
  rcases readLoopGroup_of_error read with ⟨rfl, -⟩ | ⟨opener, behind, unclosed, -, -, -, rfl⟩
  · exact List.cons_ne_nil _ _
  · exact List.cons_ne_nil _ _

theorem readFor_sound (introduces : keyword.Introduces)
    (read : g.readFor keyword rest = (node, after)) (sound : node.faults = []) :
    Closes (keyword :: rest) after := by
  rw [readFor_eq] at read
  rcases declared : readLoopDeclarator rest with ⟨declarator, declaredRest⟩
  rw [declared] at read
  dsimp only at read
  rcases held : readLoopHolder declaredRest with ⟨holder, heldRest⟩
  rw [held] at read
  dsimp only at read
  rcases grouped : readLoopGroup keyword heldRest with ⟨group, groupRest⟩
  rw [grouped] at read
  dsimp only at read
  rcases block : g.readBlock (lastPosition keyword rest) groupRest with ⟨body, behind⟩
  rw [block] at read
  dsimp only at read
  obtain ⟨front, same⟩ : heldRest <:+ rest := by
    have suffix := readLoopHead_suffix rest
    rwa [declared, held] at suffix
  have loop : (∃ inner, group = .ok inner) ∧ Node.faultsOfAll body = [] ∧ behind = after := by
    split at read
    · next fault =>
      obtain ⟨rfl, rfl⟩ := Prod.mk.inj read
      simp only [Node.faults, List.append_eq_nil_iff] at sound
      exact absurd sound.1.2 (readLoopGroup_error grouped)
    · next inner =>
      refine ⟨⟨inner, rfl⟩, ?_⟩
      split at read
      · split at read
        · obtain ⟨rfl, rfl⟩ := Prod.mk.inj read
          simp only [Node.faults, List.append_eq_nil_iff] at sound
          exact ⟨sound.2, rfl⟩
        · obtain ⟨rfl, rfl⟩ := Prod.mk.inj read
          contradiction
      · obtain ⟨rfl, rfl⟩ := Prod.mk.inj read
        simp only [Node.faults, List.append_eq_nil_iff] at sound
        exact ⟨sound.2, rfl⟩
  obtain ⟨⟨inner, rfl⟩, soundBody, rfl⟩ := loop
  have leads := readLoopGroup_ok front grouped
  rw [same] at leads
  obtain ⟨block', same', isBlock⟩ := readBlock_sound block soundBody
  exact leads.closes introduces same' isBlock

/-! ## Named things -/

theorem readName_ok {wanted : Construct} {anchor : Position} {name : String}
    (read : readName wanted anchor rest = .ok (name, after)) : LeadsTo rest after := by
  obtain ⟨word, isWord, rfl⟩ := readName_of_ok read
  exact .single (.word isWord) after

theorem readName_error {wanted : Construct} {anchor : Position} {fault : Node}
    (read : readName wanted anchor rest = .error fault) : fault.faults ≠ [] := by
  rw [readName_of_error read]
  exact List.cons_ne_nil _ _

theorem readVersion_leads {version : Option String} (read : readVersion rest = (version, after)) :
    LeadsTo rest after := by
  rcases rest with _ | ⟨number, rest⟩
  · obtain ⟨-, rfl⟩ := Prod.mk.inj read
    exact .refl []
  · simp only [readVersion] at read
    split at read
    · next isNumber =>
      obtain ⟨-, rfl⟩ := Prod.mk.inj read
      exact .single (.version isNumber) rest
    · obtain ⟨-, rfl⟩ := Prod.mk.inj read
      exact .refl _

theorem readParameters_sound {params : List Node}
    (read : g.readParameters rest = (params, after)) (sound : Node.faultsOfAll params = []) :
    LeadsTo rest after := by
  rcases rest with _ | ⟨opener, rest⟩
  · obtain ⟨-, rfl⟩ := Prod.mk.inj read
    exact .refl []
  · simp only [readParameters] at read
    split at read
    · next opens =>
      rcases readGroup_cases read with ⟨inner, taken, -⟩ | ⟨fault, -, rfl⟩
      · exact .group [] (by rw [opens]; rfl) taken
      · contradiction
    · obtain ⟨-, rfl⟩ := Prod.mk.inj read
      exact .refl _

/-- In a properly nested list the group of an attribute has its end. -/
theorem readAttributeGroup_leads {whole : List Lexeme} (nested : Nested whole)
    (suffix : rest <:+ whole) {args : Option (List Lexeme)}
    (read : readAttributeGroup rest = (args, after)) : LeadsTo rest after := by
  rcases rest with _ | ⟨opener, rest⟩
  · obtain ⟨-, rfl⟩ := Prod.mk.inj read
    exact .refl []
  · simp only [readAttributeGroup] at read
    split at read
    · next opens =>
      obtain ⟨front, rfl⟩ := suffix
      obtain ⟨inner, closer, behind, rfl, inside, partner⟩ :=
        nested.partner rfl (by rw [opens]; rfl)
      have taken := takeGroup_nested partner inside behind
      simp only [readGroup, taken] at read
      obtain ⟨-, rfl⟩ := Prod.mk.inj read
      exact .group [] (by rw [opens]; rfl) taken
    · obtain ⟨-, rfl⟩ := Prod.mk.inj read
      exact .refl _

theorem readAttributesUpTo_leads {whole : List Lexeme} (nested : Nested whole) {count : Nat}
    (suffix : rest <:+ whole) {marks : List Attribute}
    (read : readAttributesUpTo count rest = (marks, after)) : LeadsTo rest after := by
  induction count generalizing rest marks with
  | zero =>
    rw [readAttributesUpTo] at read
    · obtain ⟨-, rfl⟩ := Prod.mk.inj read
      exact .refl _
    · rintro _ _ _ _ ⟨⟩
  | succ count ih =>
    rcases rest with _ | ⟨colon, _ | ⟨word, rest⟩⟩
    · obtain ⟨-, rfl⟩ := Prod.mk.inj read
      exact .refl _
    · obtain ⟨-, rfl⟩ := Prod.mk.inj read
      exact .refl _
    · simp only [readAttributesUpTo] at read
      split at read
      · next mark =>
        simp only [Bool.and_eq_true] at mark
        rcases grouped : readAttributeGroup rest with ⟨args, between⟩
        rw [grouped] at read
        dsimp only at read
        rcases further : readAttributesUpTo count between with ⟨more, last⟩
        rw [further] at read
        obtain ⟨-, rfl⟩ := Prod.mk.inj read
        have suffix' : rest <:+ whole :=
          ((List.suffix_cons word rest).trans (List.suffix_cons colon _)).trans suffix
        have behind : between <:+ whole := by
          have group := readAttributeGroup_suffix rest
          rw [grouped] at group
          exact group.trans suffix'
        have first : LeadsTo (colon :: word :: rest) rest := by
          refine ⟨[colon, word], rfl, fun last same => ?_⟩
          obtain rfl := Option.some.inj same
          exact .word mark.2
        exact first.trans ((readAttributeGroup_leads nested suffix' grouped).trans
          (ih behind further))
      · obtain ⟨-, rfl⟩ := Prod.mk.inj read
        exact .refl _

theorem readAttributes_leads {whole : List Lexeme} (nested : Nested whole)
    (suffix : rest <:+ whole) {marks : List Attribute}
    (read : readAttributes rest = (marks, after)) : LeadsTo rest after :=
  readAttributesUpTo_leads nested suffix read

/-- Whether what is read ends in a block, or could introduce one. -/
def ClosesOrLeads (lexemes after : List Lexeme) : Prop :=
  Closes lexemes after ∨ LeadsTo lexemes after

theorem readOptionalBlock_sound {body : Option (List Node)}
    (leads : LeadsTo lexemes rest) (introduces : keyword.Introduces)
    (read : g.readOptionalBlock finish rest = (body, after))
    (sound : Node.faultsOfBlock body = []) : ClosesOrLeads (keyword :: lexemes) after := by
  simp only [readOptionalBlock] at read
  split at read
  · rcases block : g.readBlock finish rest with ⟨body, behind⟩
    rw [block] at read
    obtain ⟨rfl, rfl⟩ := Prod.mk.inj read
    obtain ⟨block', same, isBlock⟩ := readBlock_sound block sound
    exact .inl (leads.closes introduces same isBlock)
  · obtain ⟨rfl, rfl⟩ := Prod.mk.inj read
    exact .inr ((LeadsTo.single introduces lexemes).trans leads)

variable {whole : List Lexeme}

/-- A name and what its production reads behind it, in a properly nested list. -/
theorem leads_of_signature (nested : Nested whole) (suffix : rest <:+ whole) {wanted : Construct}
    {anchor : Position} {name : String} {named marked : List Lexeme} {params : List Node}
    {marks : List Attribute} (first : readName wanted anchor rest = .ok (name, named))
    (second : full.readParameters named = (params, between))
    (third : full.attributes between = (marks, marked)) (sound : Node.faultsOfAll params = []) :
    LeadsTo rest marked := by
  have behind : between <:+ whole := by
    have parameters := (readParameters_sound second sound).suffix
    exact (parameters.trans (readName_suffix first)).trans suffix
  exact ((readName_ok first).trans (readParameters_sound second sound)).trans
    (readAttributes_leads nested behind third)

theorem readNamedSub_sound (nested : Nested whole) (suffix : rest <:+ whole)
    (introduces : keyword.Introduces)
    (read : full.readNamedSub keyword rest = (node, after)) (sound : node.faults = []) :
    ClosesOrLeads (keyword :: rest) after := by
  simp only [readNamedSub] at read
  split at read
  · next fault named =>
    obtain ⟨rfl, -⟩ := Prod.mk.inj read
    exact absurd sound (readName_error named)
  · next name behind named =>
    rcases parameters : full.readParameters behind with ⟨params, between⟩
    rcases attributes : full.attributes between with ⟨marks, marked⟩
    simp only [parameters, attributes] at read
    split at read
    · next empty =>
      obtain ⟨rfl, rfl⟩ := Prod.mk.inj read
      simp only [Node.faults, List.append_eq_nil_iff] at sound
      have leads := leads_of_signature nested suffix named parameters attributes sound.1
      rw [List.isEmpty_iff.mp empty] at leads
      exact .inr ((LeadsTo.single introduces rest).trans leads)
    · rcases block : full.readBlock (lastPosition keyword rest) marked with ⟨body, last⟩
      rw [block] at read
      obtain ⟨rfl, rfl⟩ := Prod.mk.inj read
      simp only [Node.faults, List.append_eq_nil_iff] at sound
      have leads := leads_of_signature nested suffix named parameters attributes sound.1
      obtain ⟨block', same, isBlock⟩ := readBlock_sound block sound.2
      exact .inl (leads.closes introduces same isBlock)

theorem readMethodDecl_sound (nested : Nested whole) (suffix : rest <:+ whole)
    (introduces : keyword.Introduces)
    (read : full.readMethodDecl keyword rest = (node, after)) (sound : node.faults = []) :
    ClosesOrLeads (keyword :: rest) after := by
  simp only [readMethodDecl] at read
  split at read
  · next fault named =>
    obtain ⟨rfl, -⟩ := Prod.mk.inj read
    exact absurd sound (readName_error named)
  · next name behind named =>
    rcases parameters : full.readParameters behind with ⟨params, between⟩
    rcases attributes : full.attributes between with ⟨marks, marked⟩
    simp only [parameters, attributes] at read
    rcases block : full.readBlock (lastPosition keyword rest) marked with ⟨body, last⟩
    rw [block] at read
    obtain ⟨rfl, rfl⟩ := Prod.mk.inj read
    simp only [Node.faults, List.append_eq_nil_iff] at sound
    have leads := leads_of_signature nested suffix named parameters attributes sound.1
    obtain ⟨block', same, isBlock⟩ := readBlock_sound block sound.2
    exact .inl (leads.closes introduces same isBlock)

theorem readClass_sound (nested : Nested whole) (suffix : rest <:+ whole)
    (introduces : keyword.Introduces)
    (read : full.readClass keyword rest = (node, after)) (sound : node.faults = []) :
    ClosesOrLeads (keyword :: rest) after := by
  simp only [readClass] at read
  split at read
  · next fault named =>
    obtain ⟨rfl, -⟩ := Prod.mk.inj read
    exact absurd sound (readName_error named)
  · next name behind named =>
    rcases versioned : readVersion behind with ⟨version, between⟩
    rcases attributes : full.attributes between with ⟨marks, marked⟩
    simp only [versioned, attributes] at read
    rcases block : full.readOptionalBlock (lastPosition keyword rest) marked with ⟨body, last⟩
    rw [block] at read
    obtain ⟨rfl, rfl⟩ := Prod.mk.inj read
    have suffix' : between <:+ whole := by
      have version' := readVersion_suffix behind
      rw [versioned] at version'
      exact (version'.trans (readName_suffix named)).trans suffix
    have leads := ((readName_ok named).trans (readVersion_leads versioned)).trans
      (readAttributes_leads nested suffix' attributes)
    exact readOptionalBlock_sound leads introduces block sound

theorem readPackage_sound (introduces : keyword.Introduces)
    (read : g.readPackage keyword rest = (node, after)) (sound : node.faults = []) :
    ClosesOrLeads (keyword :: rest) after := by
  simp only [readPackage] at read
  split at read
  · next fault named =>
    obtain ⟨rfl, -⟩ := Prod.mk.inj read
    exact absurd sound (readName_error named)
  · next name behind named =>
    rcases versioned : readVersion behind with ⟨version, between⟩
    rw [versioned] at read
    dsimp only at read
    rcases block : g.readOptionalBlock (lastPosition keyword rest) between with ⟨body, last⟩
    rw [block] at read
    obtain ⟨rfl, rfl⟩ := Prod.mk.inj read
    have leads := (readName_ok named).trans (readVersion_leads versioned)
    exact readOptionalBlock_sound leads introduces block sound

/-! ## Blocks with a head -/

/-- The variable of a handler, if one follows. -/
def readHandlerHolder : List Lexeme → Parse (Option Node)
  | [] => (none, [])
  | opener :: after =>
    if opener.category = .leftParen then
      readGroup opener after (fun lexemes => some (handlerVariable opener lexemes))
        fun fault => some (.error fault)
    else (none, opener :: after)

theorem readHandlerHolder_sound {holder : Option Node}
    (read : readHandlerHolder rest = (holder, after)) (sound : Node.faultsOfOption holder = []) :
    LeadsTo rest after := by
  rcases rest with _ | ⟨opener, rest⟩
  · obtain ⟨-, rfl⟩ := Prod.mk.inj read
    exact .refl []
  · simp only [readHandlerHolder] at read
    split at read
    · next opens =>
      rcases readGroup_cases read with ⟨inner, taken, -⟩ | ⟨fault, -, rfl⟩
      · exact .group [] (by rw [opens]; rfl) taken
      · contradiction
    · obtain ⟨-, rfl⟩ := Prod.mk.inj read
      exact .refl _

theorem readHandler_cons (g : Grammar) (finish : Position) (keyword : Lexeme)
    (rest : List Lexeme) : g.readHandler finish (keyword :: rest) =
      if keyword.isSpelled .keyword "catch" then
        let (holder, behind) := readHandlerHolder rest
        let (body, after) := g.readBlock finish behind
        (some ⟨holder, body⟩, after)
      else (none, keyword :: rest) := rfl

theorem readHandler_sound {handler : Option (Handler Node)}
    (read : g.readHandler finish rest = (handler, after))
    (sound : Node.faultsOfHandler handler = []) : rest = after ∨ Closes rest after := by
  rcases rest with _ | ⟨keyword, rest⟩
  · exact .inl (Prod.mk.inj read).2
  · rw [readHandler_cons] at read
    split at read
    · next spelled =>
      rcases held : readHandlerHolder rest with ⟨holder, between⟩
      rw [held] at read
      dsimp only at read
      rcases block : g.readBlock finish between with ⟨body, behind⟩
      rw [block] at read
      obtain ⟨rfl, rfl⟩ := Prod.mk.inj read
      simp only [Node.faultsOfHandler, List.append_eq_nil_iff] at sound
      obtain ⟨block', same, isBlock⟩ := readBlock_sound block sound.2
      exact .inr ((readHandlerHolder_sound held sound.1).closes
        (introduces_of_spelled spelled (by decide)) same isBlock)
    · exact .inl (Prod.mk.inj read).2

theorem readTry_sound (introduces : keyword.Introduces)
    (read : g.readTry keyword rest = (node, after)) (sound : node.faults = []) :
    Closes (keyword :: rest) after := by
  simp only [readTry] at read
  rcases block : g.readBlock (lastPosition keyword rest) rest with ⟨body, behind⟩
  rw [block] at read
  dsimp only at read
  rcases handled : g.readHandler (lastPosition keyword rest) behind with ⟨handler, between⟩
  rw [handled] at read
  dsimp only at read
  rcases last : g.readContinuation (lastPosition keyword rest) .keyword "finally" between
    with ⟨final, behind'⟩
  rw [last] at read
  obtain ⟨rfl, rfl⟩ := Prod.mk.inj read
  simp only [Node.faults, List.append_eq_nil_iff] at sound
  exact ((closes_of_block introduces block sound.1.1).trans
    (readHandler_sound handled sound.1.2)).trans (readContinuation_sound (by decide) last sound.2)

/-! ## Statements -/

theorem finish_sound {parse : Parse Node} (sound : (Node.finish parse).faults = []) :
    ∃ node, parse = (node, []) ∧ node.faults = [] := by
  rcases parse with ⟨node, _ | ⟨extra, rest⟩⟩
  · exact ⟨node, rfl, sound⟩
  · contradiction

theorem dangling_faults (keyword : Lexeme) : (dangling keyword).faults ≠ [] := List.cons_ne_nil _ _

theorem readControl_sound (role : keyword.category = .controlKeyword)
    (sound : (full.readControl keyword rest).faults = []) : EndsInBlock (keyword :: rest) := by
  have introduces : keyword.Introduces := .role (by rw [role]; decide)
  simp only [readControl] at sound
  split at sound
  · obtain ⟨node, read, sound⟩ := finish_sound sound
    exact (readConditional_sound introduces read sound).endsInBlock
  · obtain ⟨node, read, sound⟩ := finish_sound sound
    exact (readConditional_sound introduces read sound).endsInBlock
  · obtain ⟨node, read, sound⟩ := finish_sound sound
    exact (readWhile_sound introduces read sound).endsInBlock
  · obtain ⟨node, read, sound⟩ := finish_sound sound
    exact (readWhile_sound introduces read sound).endsInBlock
  · obtain ⟨node, read, sound⟩ := finish_sound sound
    exact (readFor_sound introduces read sound).endsInBlock
  · obtain ⟨node, read, sound⟩ := finish_sound sound
    exact (readFor_sound introduces read sound).endsInBlock
  · exact absurd sound (dangling_faults keyword)

theorem readReserved_sound (nested : Nested (keyword :: rest)) (role : keyword.category = .keyword)
    (bears : BearsBlock keyword rest) (sound : (full.readReserved keyword rest).faults = []) :
    ClosesOrLeads (keyword :: rest) [] := by
  have introduces : keyword.Introduces := .role (by rw [role]; decide)
  have suffix := List.suffix_cons keyword rest
  simp only [readReserved] at sound
  split at sound
  · next spelled =>
    split at sound
    · obtain ⟨node, read, sound⟩ := finish_sound sound
      exact readNamedSub_sound nested suffix introduces read sound
    · next noName => cases bears <;> simp_all
  · obtain ⟨node, read, sound⟩ := finish_sound sound
    exact readClass_sound nested suffix introduces read sound
  · next spelled => cases bears <;> simp_all
  · obtain ⟨node, read, sound⟩ := finish_sound sound
    exact readMethodDecl_sound nested suffix introduces read sound
  · obtain ⟨node, read, sound⟩ := finish_sound sound
    exact readPackage_sound introduces read sound
  · next spelled => cases bears <;> simp_all
  · next spelled => cases bears <;> simp_all
  · obtain ⟨node, read, sound⟩ := finish_sound sound
    exact .inl (readTry_sound introduces read sound)
  · exact absurd sound (dangling_faults keyword)
  · exact absurd sound (dangling_faults keyword)
  · obtain ⟨node, read, sound⟩ := finish_sound sound
    exact .inl (readTopic_sound introduces read sound)
  · obtain ⟨node, read, sound⟩ := finish_sound sound
    exact .inl (readTopic_sound introduces read sound)
  · obtain ⟨node, read, sound⟩ := finish_sound sound
    exact .inl (readTopic_sound introduces read sound)
  · obtain ⟨node, read, sound⟩ := finish_sound sound
    exact .inl (readTopic_sound introduces read sound)
  · rcases block : full.readBlock (lastPosition keyword rest) rest with ⟨body, behind⟩
    rw [block] at sound
    obtain ⟨node, read, sound⟩ := finish_sound sound
    obtain ⟨rfl, rfl⟩ := Prod.mk.inj read
    exact .inl (closes_of_block introduces block sound)
  · cases bears <;> simp_all

end Grammar

end SigilScript
