import SigilScript.Proofs.Grammar.Complete
import SigilScript.Proofs.Layout.Basic

/-! # The layout of expressions

What each production of an expression reads is laid over the lexemes that it took, provided that
this holds of what the grammar reads from fewer lexemes.
-/

namespace SigilScript

/-! ## Searches -/

theorem takeGroup_error {opener : Lexeme} {rest after : List Lexeme} {fault : SyntaxFault}
    (failed : takeGroup opener rest = (.error fault, after)) :
    fault.position = opener.position ∧ after <:+ rest := by
  have suffix := takeGroup_suffix opener rest
  rw [failed] at suffix
  exact ⟨(takeGroup_uncut failed).1, suffix⟩

/-- A group that is taken, with its closer, and taken just as well where nothing stands behind. -/
theorem takeGroup_alone {opener : Lexeme} {rest inner after : List Lexeme}
    (taken : takeGroup opener rest = (.ok inner, after)) :
    ∃ closer : Lexeme, rest = inner ++ closer :: after ∧
      takeGroup opener (inner ++ [closer]) = (.ok inner, []) := by
  obtain ⟨closer, found, partner, cut⟩ := takeGroup_cut taken
  exact ⟨found, (cutAtPartner?_whole cut).symm, takeGroup_of_cut partner
    ((isSearch_cutAtPartner? opener.category closer).exchange 1 cut [])⟩

/-- Without its partner a parenthesis takes everything. -/
theorem takeGroup_open {opener : Lexeme} (opens : opener.category = .leftParen)
    {rest after : List Lexeme} {fault : SyntaxFault}
    (failed : takeGroup opener rest = (.error fault, after)) :
    cutAtPartner? .leftParen .rightParen 1 rest = none ∧ after = [] := by
  obtain ⟨-, ⟨plain, -⟩ | ⟨closer, partner, uncut, rfl⟩⟩ := takeGroup_uncut failed
  · rw [opens] at plain
    contradiction
  · rw [opens] at partner uncut
    obtain rfl := Option.some.inj partner
    exact ⟨uncut, rfl⟩

/-- The segments of a list with the separators that end them. -/
def Segment.whole (segment : Segment) : List Lexeme :=
  segment.lexemes ++ segment.separator.toList

theorem flatMap_whole_pushSegment (lexeme : Lexeme) (segments : List Segment) :
    (pushSegment lexeme segments).flatMap Segment.whole =
      lexeme :: segments.flatMap Segment.whole := by
  cases segments with
  | nil => rfl
  | cons segment segments =>
    simp only [pushSegment, List.flatMap_cons, Segment.whole, List.cons_append]

/-- Segments and separators, in order, are the list that was split. -/
theorem flatMap_whole_segmentsFrom (separator : Category) (depth : Nat) (lexemes : List Lexeme) :
    (segmentsFrom separator depth lexemes).flatMap Segment.whole = lexemes := by
  induction lexemes generalizing depth with
  | nil => rfl
  | cons lexeme rest ih =>
    simp only [segmentsFrom]
    rcases lexeme.category.depthAfter? depth with _ | inner
    · split
      · simp [Segment.whole]
      · simp [flatMap_whole_pushSegment, Segment.whole]
    · split
      · simp [Segment.whole, ih inner]
      · rw [flatMap_whole_pushSegment, ih inner]

theorem flatMap_whole_segmentsAt (separator : Category) (lexemes : List Lexeme) :
    (segmentsAt separator lexemes).flatMap Segment.whole = lexemes := by
  cases lexemes with
  | nil => rfl
  | cons lexeme rest => exact flatMap_whole_segmentsFrom separator 0 (lexeme :: rest)

theorem separator_pushSegment {lexeme found : Lexeme} {segments : List Segment} {segment : Segment}
    (member : segment ∈ pushSegment lexeme segments) (ends : segment.separator = some found) :
    ∃ other ∈ segments, other.separator = some found := by
  cases segments with
  | nil =>
    obtain rfl := List.mem_singleton.mp member
    contradiction
  | cons first segments =>
    rcases List.mem_cons.mp member with rfl | later
    · exact ⟨first, List.mem_cons_self, ends⟩
    · exact ⟨segment, List.mem_cons_of_mem _ later, ends⟩

theorem separator_segmentsFrom {separator : Category} {depth : Nat} {lexemes : List Lexeme}
    {segment : Segment} {found : Lexeme}
    (member : segment ∈ segmentsFrom separator depth lexemes)
    (ends : segment.separator = some found) : found.category = separator := by
  induction lexemes generalizing depth segment with
  | nil =>
    obtain rfl := List.mem_singleton.mp member
    contradiction
  | cons lexeme rest ih =>
    have step {further : List Segment}
        (later : ∀ segment ∈ further, segment.separator = some found → found.category = separator)
        (member : segment ∈ if depth = 0 ∧ lexeme.category = separator then
          ⟨[], some lexeme⟩ :: further else pushSegment lexeme further) :
        found.category = separator := by
      split at member
      · next separates =>
        rcases List.mem_cons.mp member with rfl | member
        · obtain rfl := Option.some.inj ends
          exact separates.2
        · exact later segment member ends
      · obtain ⟨other, member, ends⟩ := separator_pushSegment member ends
        exact later other member ends
    rcases within : lexeme.category.depthAfter? depth with _ | inner
    · simp only [segmentsFrom, within] at member
      refine step (fun segment member ends => ?_) member
      obtain rfl := List.mem_singleton.mp member
      contradiction
    · simp only [segmentsFrom, within] at member
      exact step (fun segment member ends => ih member ends) member

theorem separator_segmentsAt {separator : Category} {lexemes : List Lexeme} {segment : Segment}
    {found : Lexeme} (member : segment ∈ segmentsAt separator lexemes)
    (ends : segment.separator = some found) : found.category = separator := by
  cases lexemes with
  | nil => exact absurd member List.not_mem_nil
  | cons lexeme rest => exact separator_segmentsFrom member ends

/-! ## Reading without the grammar -/

namespace Laid

/-- What stands between separators is laid over the list that was split. -/
theorem segments {separator : Category} (opens : separator.isOpener = false)
    (closes : separator.isCloser = false) {trees : Segment → List Node} {lexemes : List Lexeme}
    (each : ∀ segment ∈ segmentsAt separator lexemes,
      Laid .phrase (trees segment) segment.lexemes []) :
    Laid .phrase ((segmentsAt separator lexemes).flatMap trees) lexemes [] := by
  have separators (segment : Segment) (member : segment ∈ segmentsAt separator lexemes) :
      Laid .phrase [] segment.separator.toList [] := by
    rcases ends : segment.separator with _ | found
    · exact .refl []
    · have role := separator_segmentsAt member ends
      exact .plain (Lexeme.plain_of_role role opens closes)
  have whole := flatMap_whole_segmentsAt separator lexemes
  generalize segmentsAt separator lexemes = segments at *
  rw [← whole]
  clear whole
  induction segments with
  | nil => exact .refl []
  | cons segment segments ih =>
    have first := each segment List.mem_cons_self
    have ends := separators segment List.mem_cons_self
    have others := ih (fun other member => each other (List.mem_cons_of_mem _ member))
      fun other member => separators other (List.mem_cons_of_mem _ member)
    rw [List.flatMap_cons, List.flatMap_cons, Segment.whole, List.append_assoc]
    exact .trans (first.all_before _) (.trans (ends.all_before _) others)

/-- A group behind what was read; without its end a fault at the opener takes the place of all. -/
theorem readGroup_behind {α : Type} (trees : α → List Node) {nodes : List Node} {opener : Lexeme}
    {rest lexemes : List Lexeme} (laid : Laid .phrase nodes lexemes (opener :: rest))
    {inside : List Lexeme → α} {unclosed : SyntaxFault → α}
    (within : ∀ inner closer left, rest = inner ++ closer :: left → inner.length < rest.length →
      opener.category.closer? = some closer.category →
        Laid .phrase (trees (inside inner)) lexemes left)
    (without : ∀ fault, trees (unclosed fault) = [.error fault]) :
    Laid .phrase (trees (readGroup opener rest inside unclosed).1) lexemes
      (readGroup opener rest inside unclosed).2 := by
  rcases group : takeGroup opener rest with ⟨⟨cause, position⟩ | inner, after⟩
  · obtain ⟨place, suffix⟩ := takeGroup_error group
    obtain rfl : position = opener.position := place
    simp only [SigilScript.readGroup, group, without]
    exact laid.fault_at (suffix.trans (List.suffix_cons ..))
  · obtain ⟨closer, partner, same⟩ := takeGroup_ok group
    simp only [SigilScript.readGroup, group]
    exact within inner closer after same (takeGroup_length group) partner

theorem readGroup {α : Type} (trees : α → List Node) {opener : Lexeme} {rest : List Lexeme}
    {inside : List Lexeme → α} {unclosed : SyntaxFault → α}
    (within : ∀ inner closer left, inner.length < rest.length →
      opener.category.closer? = some closer.category →
        Laid .phrase (trees (inside inner)) (opener :: (inner ++ closer :: left)) left)
    (without : ∀ fault, trees (unclosed fault) = [.error fault]) :
    Laid .phrase (trees (readGroup opener rest inside unclosed).1) (opener :: rest)
      (readGroup opener rest inside unclosed).2 := by
  refine readGroup_behind trees (.refl _) (fun inner closer left same short partner => ?_) without
  rw [same]
  exact within inner closer left short partner

theorem barewordKey? {lexemes : List Lexeme} {key : String}
    (spelled : barewordKey? lexemes = some key) : Laid .phrase [] lexemes [] := by
  rcases lexemes with _ | ⟨first, _ | ⟨second, _ | ⟨third, rest⟩⟩⟩
  · exact .refl []
  · simp only [SigilScript.barewordKey?] at spelled
    split at spelled
    · next word => exact .plain (Lexeme.plain_of_word word)
    · contradiction
  · simp only [SigilScript.barewordKey?] at spelled
    split at spelled
    · next both =>
      obtain ⟨minus, word⟩ := Bool.and_eq_true_iff.mp both
      exact skip_head (Lexeme.plain_of_operator minus) (.plain (Lexeme.plain_of_word word))
    · contradiction
  · simp [SigilScript.barewordKey?] at spelled

theorem asVar? {lexeme : Lexeme} {holder : Node} {left : List Lexeme}
    (spelled : lexeme.asVar? = some holder) : Laid .phrase [holder] (lexeme :: left) left := by
  simp only [Lexeme.asVar?] at spelled
  split at spelled
  · next sigil kind =>
    obtain rfl := Option.some.inj spelled
    have plain : lexeme.Plain := (Lexeme.Names.plain (.inr (.inr ⟨sigil, kind⟩)))
    simp only [Node.ofSpelling]
    split <;> exact .leaf rfl rfl plain
  · contradiction

/-- The words of a word list stand for no lexeme of their own. -/
theorem plains (words : List String) (lexemes : List Lexeme) :
    Laid .phrase (words.map Node.plain) lexemes lexemes := by
  induction words with
  | nil => exact .refl _
  | cons word words ih =>
    have first : Laid .phrase [.plain word] lexemes lexemes := .node trivial (.refl _)
    exact .trans first ih

theorem valueOf {values : List Node} {lexemes left : List Lexeme}
    (laid : Laid .phrase values lexemes left) :
    Laid .phrase (Grammar.valueOf values).toList lexemes left := by
  rcases values with _ | ⟨value, _ | ⟨second, values⟩⟩
  · exact laid
  · exact laid
  · exact .node trivial laid

theorem binary {left right : Node} {lexemes after : List Lexeme} (op : String)
    (laid : Laid .phrase [left, right] lexemes after) :
    Laid .phrase [.binary op left right] lexemes after := by
  simp only [Node.binary]
  split
  · exact .node trivial laid
  · split <;> exact .node trivial laid

theorem readJump {keyword : Lexeme} (plain : keyword.Plain) (jump : Jump) (rest : List Lexeme) :
    Laid .phrase [(Grammar.readJump jump rest).1] (keyword :: rest)
      (Grammar.readJump jump rest).2 := by
  rcases rest with _ | ⟨label, rest⟩
  · exact .leaf rfl rfl plain
  · simp only [Grammar.readJump]
    split
    · next role =>
      exact .skip_head plain (.leaf rfl rfl (Lexeme.plain_of_role role rfl rfl))
    · exact .leaf rfl rfl plain

theorem dropWhile_comma (rest : List Lexeme) :
    Laid .phrase [] rest (rest.dropWhile fun next => next.category = .comma) := by
  induction rest with
  | nil => exact .refl []
  | cons next rest ih =>
    rw [List.dropWhile_cons]
    split
    · next comma =>
      have role : next.category = .comma := of_decide_eq_true comma
      exact skip_head (Lexeme.plain_of_role role rfl rfl) ih
    · exact .refl _

end Laid

/-- Attributes are a run of marks, or what is lost with the last of them is all there is. -/
theorem readAttributesUpTo_cases (count : Nat) (rest : List Lexeme) :
    (∃ marks, Marks marks ∧ rest = marks ++ (readAttributesUpTo count rest).2) ∨
      (readAttributesUpTo count rest).2 = [] ∧
        ∃ marks lost, Marks marks ∧ Lost lost ∧ rest = marks ++ lost := by
  fun_induction readAttributesUpTo count rest with
  | case1 count colon word rest both args after group attributes final further ih =>
    simp only [Bool.and_eq_true, decide_eq_true_eq] at both
    rw [further] at ih
    rcases rest with _ | ⟨opener, rest⟩
    · obtain ⟨-, rfl⟩ := Prod.mk.inj group
      rcases ih with ⟨marks, run, same⟩ | ⟨rfl, marks, lost, -, final, same⟩
      · exact .inl ⟨colon :: word :: marks, .name both run, by rw [same]; rfl⟩
      · rcases final
        simp at same
    · simp only [readAttributeGroup] at group
      split at group
      · next opens =>
        rcases taken : takeGroup opener rest with ⟨fault | inner, behind⟩
        · obtain ⟨open_, rfl⟩ := takeGroup_open opens taken
          simp only [readGroup, taken, Prod.mk.injEq] at group
          obtain ⟨-, rfl⟩ := group
          have none : final = [] := by
            rw [← (Prod.mk.inj further).2]
            cases count <;> rfl
          exact .inr ⟨none, [], colon :: word :: opener :: rest, .nil, .intro both opens open_, rfl⟩
        · obtain ⟨closer, rfl, alone⟩ := takeGroup_alone taken
          simp only [readGroup, taken, Prod.mk.injEq] at group
          obtain ⟨-, rfl⟩ := group
          rcases ih with ⟨marks, run, same⟩ | ⟨rfl, marks, lost, run, final, same⟩
          · refine .inl ⟨colon :: word :: opener :: (inner ++ closer :: marks),
              .group both opens alone run, ?_⟩
            simp [same]
          · refine .inr ⟨rfl, colon :: word :: opener :: (inner ++ closer :: marks), lost,
              .group both opens alone run, final, ?_⟩
            simp [same]
      · obtain ⟨-, rfl⟩ := Prod.mk.inj group
        rcases ih with ⟨marks, run, same⟩ | ⟨rfl, marks, lost, run, final, same⟩
        · exact .inl ⟨colon :: word :: marks, .name both run, by rw [same]; rfl⟩
        · exact .inr ⟨rfl, colon :: word :: marks, lost, .name both run, final, by rw [same]; rfl⟩
  | case2 => exact .inl ⟨[], .nil, rfl⟩
  | case3 => exact .inl ⟨[], .nil, rfl⟩

/-- Where the last lexeme of a list stands. -/
def EndsAt (finish : Position) (lexemes : List Lexeme) : Prop :=
  ∃ (front : List Lexeme) (last : Lexeme), lexemes = front ++ [last] ∧ last.position = finish

theorem endsAt_lastPosition (lexeme : Lexeme) (rest : List Lexeme) :
    EndsAt (lastPosition lexeme rest) (lexeme :: rest) := by
  rcases List.eq_nil_or_concat rest with rfl | ⟨front, last, rfl⟩
  · exact ⟨[], lexeme, rfl, rfl⟩
  · refine ⟨lexeme :: front, last, by simp, ?_⟩
    simp [lastPosition, List.getLastD_eq_getLast?]

/-- Where something is missing at the end, the fault stands at the last lexeme. -/
theorem Laid.missing_at {nodes : List Node} {cause : SyntaxCause} {finish : Position}
    {lexemes : List Lexeme} (laid : Laid .phrase nodes lexemes []) (ends : EndsAt finish lexemes) :
    Laid .phrase (nodes ++ [.fault cause finish]) lexemes [] := by
  obtain ⟨front, last, rfl, rfl⟩ := ends
  exact .missing laid

theorem EndsAt.of_append {finish : Position} {front back : List Lexeme}
    (ends : EndsAt finish (front ++ back)) (filled : back ≠ []) : EndsAt finish back := by
  obtain ⟨before, last, same, place⟩ := ends
  rcases List.eq_nil_or_concat back with rfl | ⟨init, final, rfl⟩
  · contradiction
  · rw [List.concat_eq_append, ← List.append_assoc] at same
    obtain rfl := (List.cons.inj (List.append_inj' same rfl).2).1
    exact ⟨init, final, List.concat_eq_append .., place⟩

/-- A fault at the last lexeme takes the place of all. -/
theorem Laid.fault_last {cause : SyntaxCause} {finish : Position} {lexemes : List Lexeme}
    (ends : EndsAt finish lexemes) : Laid .phrase [.fault cause finish] lexemes [] := by
  obtain ⟨front, last, rfl, rfl⟩ := ends
  exact .fault front List.nil_suffix

theorem Laid.names {names : List Lexeme} (named : ∀ name ∈ names, name.Names) :
    Laid .phrase [] names [] := by
  induction names with
  | nil => exact .refl []
  | cons name names ih =>
    exact .skip_head (named name List.mem_cons_self).plain
      (ih fun other member => named other (List.mem_cons_of_mem _ member))

/-- Reading lost the end of a declaration with the group of an attribute. -/
def EndsLost (nodes : List Node) (lexemes : List Lexeme) : Prop :=
  ∃ intro marks lost, Introduction intro ∧ Laid .phrase nodes intro [] ∧ Marks marks ∧
    Lost lost ∧ lexemes = intro ++ (marks ++ lost)

/-- Behind its attributes a declaration goes on, or its end is lost. -/
theorem Laid.readAttributes {nodes : List Node} {intro : List Lexeme}
    (introduction : Introduction intro) (laid : Laid .phrase nodes intro []) (rest : List Lexeme) :
    Laid .phrase nodes (intro ++ rest) (readAttributes rest).2 ∨
      (readAttributes rest).2 = [] ∧ EndsLost nodes (intro ++ rest) := by
  rcases readAttributesUpTo_cases rest.length rest with
    ⟨marks, run, same⟩ | ⟨nothing, marks, lost, run, final, same⟩
  · refine .inl ?_
    have whole : Laid .phrase nodes (intro ++ (marks ++ (SigilScript.readAttributes rest).2))
        (SigilScript.readAttributes rest).2 := .marked introduction laid run
    rwa [show marks ++ (SigilScript.readAttributes rest).2 = rest from same.symm] at whole
  · exact .inr ⟨nothing, intro, marks, lost, introduction, laid, run, final, by rw [← same]⟩

namespace Grammar

/-- What a grammar reads from fewer lexemes than `n` is laid over them. -/
structure Lays (n : Nat) (g : Grammar) : Prop where
  nothing : ∀ anchor, g.whole anchor [] = .fault .unexpectedEnd anchor
  whole : ∀ anchor lexemes, lexemes.length < n → lexemes ≠ [] →
    Laid .phrase [g.whole anchor lexemes] lexemes []
  operation : ∀ level lexeme rest, rest.length < n →
    Laid .phrase [(g.operation level lexeme rest).1] (lexeme :: rest)
      (g.operation level lexeme rest).2
  climb : ∀ level node rest lexemes, rest.length < n → Laid .phrase [node] lexemes rest →
    Laid .phrase [(g.climb level node rest).1] lexemes (g.climb level node rest).2
  operand : ∀ lexeme rest, rest.length < n →
    Laid .phrase [(g.operand lexeme rest).1] (lexeme :: rest) (g.operand lexeme rest).2
  primary : ∀ lexeme rest, rest.length < n →
    Laid .phrase [(g.primary lexeme rest).1] (lexeme :: rest) (g.primary lexeme rest).2
  chain : ∀ node rest lexemes, rest.length < n → Laid .phrase [node] lexemes rest →
    Laid .phrase [(g.chain node rest).1] lexemes (g.chain node rest).2
  items : ∀ rest, rest.length < n → Laid .phrase (g.items rest).1 rest (g.items rest).2
  arguments : ∀ rest, rest.length < n →
    Laid .phrase (g.arguments rest).1 rest (g.arguments rest).2
  attributes : g.attributes = readAttributes
  clauses : ∀ finish rest nodes lexemes, rest.length < n → EndsAt finish lexemes →
    Laid .phrase nodes lexemes rest →
      Laid .phrase (nodes ++ (g.clauses finish rest).1.flatMap Node.clauseParts) lexemes
        (g.clauses finish rest).2
  statements : ∀ lexemes, lexemes.length < n → Laid .statement (g.statements lexemes) lexemes []

namespace Lays

variable {n : Nat} {g : Grammar} (c : g.Consumes) (lays : g.Lays n)
include lays

/-! ## Lists and subscripts -/

/-- An expression inside a group; an empty one is a fault at the opener. -/
theorem inside {opener closer : Lexeme} {inner : List Lexeme} (left : List Lexeme)
    (short : inner.length < n) (partner : opener.category.closer? = some closer.category) :
    Laid .phrase [g.whole opener.position inner] (opener :: (inner ++ closer :: left)) left := by
  rcases inner with _ | ⟨first, inner⟩
  · rw [lays.nothing]
    exact .fault_group []
  · exact .group partner (lays.whole _ _ short (List.cons_ne_nil _ _))

theorem readElements (anchor : Position) (lexemes : List Lexeme) (short : lexemes.length < n) :
    Laid .phrase (g.readElements anchor lexemes) lexemes [] := by
  rw [Grammar.readElements, List.filterMap_eq_flatMap_toList]
  refine Laid.segments rfl rfl fun segment member => ?_
  have within := Nat.lt_of_le_of_lt (segmentsAt_length member) short
  split
  · next empty =>
    rw [List.isEmpty_iff.mp empty]
    exact .refl []
  · next filled =>
    split
    · next key spelled =>
      obtain ⟨separator, -, spelled⟩ := Option.bind_eq_some_iff.mp spelled
      exact .node trivial (Laid.barewordKey? spelled)
    · exact lays.whole _ _ within fun empty => filled (by rw [empty]; rfl)

theorem readSubscript {opener closer : Lexeme} {inner : List Lexeme} (left : List Lexeme)
    (short : inner.length < n) (partner : opener.category.closer? = some closer.category) :
    Laid .phrase [g.readSubscript opener.position inner] (opener :: (inner ++ closer :: left))
      left := by
  simp only [Grammar.readSubscript]
  split
  · exact .fault_group inner
  · split
    · exact .group partner (.node trivial (lays.readElements _ _ short))
    · exact lays.inside left short partner

theorem readIndex {opener closer : Lexeme} {inner : List Lexeme} (left : List Lexeme)
    (short : inner.length < n) (partner : opener.category.closer? = some closer.category) :
    Laid .phrase [g.readIndex opener inner] (opener :: (inner ++ closer :: left)) left := by
  simp only [Grammar.readIndex, Grammar.readHashKey]
  split
  · exact lays.readSubscript left short partner
  · split
    · next spelled => exact .group partner (.node trivial (Laid.barewordKey? spelled))
    · exact lays.readSubscript left short partner

theorem readGroupElements (opener : Lexeme) (rest : List Lexeme) (short : rest.length ≤ n) :
    Laid .phrase (g.readGroupElements opener rest).1 (opener :: rest)
      (g.readGroupElements opener rest).2 :=
  Laid.readGroup id
    (fun inner _ _ within partner =>
      .group partner (lays.readElements _ inner (Nat.lt_of_lt_of_le within short)))
    fun _ => rfl

include c in
theorem readArguments (rest : List Lexeme) (short : rest.length ≤ n) :
    Laid .phrase (g.readArguments rest).1 rest (g.readArguments rest).2 := by
  rcases rest with _ | ⟨lexeme, rest⟩
  · exact .refl []
  · have suffix := c.operation Level.assignment lexeme rest
    have first := lays.operation Level.assignment lexeme rest short
    simp only [Grammar.readArguments]
    split
    · split
      · have commas := List.dropWhile_suffix (fun next : Lexeme => next.category = .comma)
          (l := (g.operation Level.assignment lexeme rest).2)
        have further := lays.arguments _
          (Nat.lt_of_le_of_lt (commas.trans suffix).length_le short)
        exact .trans first (.trans (Laid.dropWhile_comma _) further)
      · exact first
    · exact .refl _

include c in
theorem readCallArguments (rest : List Lexeme) (short : rest.length ≤ n) :
    Laid .phrase (g.readCallArguments rest).1 rest (g.readCallArguments rest).2 := by
  rcases rest with _ | ⟨opener, rest⟩
  · exact .refl []
  · simp only [Grammar.readCallArguments]
    split
    · exact lays.readGroupElements opener rest (Nat.le_of_lt short)
    · exact lays.readArguments c _ short

theorem readMethodArguments (rest : List Lexeme) (short : rest.length ≤ n) :
    Laid .phrase (g.readMethodArguments rest).1 rest (g.readMethodArguments rest).2 := by
  rcases rest with _ | ⟨opener, rest⟩
  · exact .refl []
  · simp only [Grammar.readMethodArguments]
    split
    · exact lays.readGroupElements opener rest (Nat.le_of_lt short)
    · exact .refl _

/-! ## Blocks and signatures -/

/-- A block behind what was read, or a fault for it. -/
theorem readBlock {finish : Position} {rest : List Lexeme} (short : rest.length ≤ n)
    {nodes : List Node} {lexemes : List Lexeme} (ends : EndsAt finish lexemes)
    (laid : Laid .phrase nodes lexemes rest) :
    Laid .phrase (nodes ++ (g.readBlock finish rest).1) lexemes (g.readBlock finish rest).2 := by
  rcases rest with _ | ⟨opener, rest⟩
  · exact laid.missing_at ends
  · simp only [Grammar.readBlock]
    split
    · exact .trans laid (Laid.readGroup id
        (fun inner _ _ within partner =>
          .group partner (lays.statements inner (Nat.lt_trans within short)))
        fun _ => rfl)
    · exact .trans laid (.fault_head List.nil_suffix)

theorem readDefault (anchor : Position) (rest : List Lexeme) (short : rest.length ≤ n) :
    Laid .phrase (g.readDefault anchor rest).toList rest [] := by
  rcases rest with _ | ⟨op, rest⟩
  · exact .refl []
  · simp only [Grammar.readDefault]
    split
    · next role =>
      have plain : op.Plain := Lexeme.plain_of_default role
      split
      · exact .fault_head List.nil_suffix
      · next filled =>
        exact .skip_head plain (lays.whole _ _ short fun empty => filled (by rw [empty]; rfl))
    · exact .fault_head List.nil_suffix

theorem readParameter (anchor : Position) (segment : List Lexeme) (short : segment.length ≤ n)
    (filled : segment ≠ []) : Laid .phrase [g.readParameter anchor segment] segment [] := by
  rcases segment with _ | ⟨first, rest⟩
  · contradiction
  · simp only [Grammar.readParameter, List.head?_cons, Option.bind_some, List.tail_cons]
    split
    · next holder spelled =>
      exact .node trivial (.trans (Laid.asVar? spelled)
        (lays.readDefault anchor rest (Nat.le_of_lt short)))
    · exact .fault_head List.nil_suffix

/-- The parameters of a signature, from the inside of its parentheses. -/
theorem parameters (anchor : Position) (lexemes : List Lexeme) (short : lexemes.length < n) :
    Laid .phrase (((splitTopLevel lexemes .comma).filter fun segment => !segment.isEmpty).map
      (g.readParameter anchor)) lexemes [] := by
  have each (segments : List Segment) :
      (((segments.map Segment.lexemes).filter fun segment => !segment.isEmpty).map
        (g.readParameter anchor)) = segments.flatMap fun segment =>
          if segment.lexemes.isEmpty then [] else [g.readParameter anchor segment.lexemes] := by
    induction segments with
    | nil => rfl
    | cons segment segments ih =>
      rw [List.map_cons, List.filter_cons, List.flatMap_cons, ← ih]
      cases segment.lexemes.isEmpty <;> rfl
  rw [splitTopLevel, each]
  refine Laid.segments rfl rfl fun segment member => ?_
  have within := Nat.lt_of_le_of_lt (segmentsAt_length member) short
  split
  · next empty =>
    rw [List.isEmpty_iff.mp empty]
    exact .refl []
  · next filled =>
    exact lays.readParameter anchor _ (Nat.le_of_lt within) fun empty => filled (by rw [empty]; rfl)

/-- A signature is read whole, or it has no end. -/
theorem readParameters (rest : List Lexeme) (short : rest.length ≤ n) :
    (∃ signature, Signature signature ∧ rest = signature ++ (g.readParameters rest).2 ∧
      Laid .phrase (g.readParameters rest).1 signature []) ∨
    (g.readParameters rest).2 = [] ∧ ∃ opener inner cause, rest = opener :: inner ∧
      (g.readParameters rest).1 = [.error ⟨cause, opener.position⟩] := by
  rcases rest with _ | ⟨opener, rest⟩
  · exact .inl ⟨[], .absent, rfl, .refl []⟩
  · simp only [Grammar.readParameters]
    split
    · next opens =>
      rcases group : takeGroup opener rest with ⟨⟨cause, position⟩ | inner, after⟩
      · obtain ⟨place, -⟩ := takeGroup_error group
        obtain ⟨-, rfl⟩ := takeGroup_open opens group
        obtain rfl : position = opener.position := place
        simp only [readGroup, group]
        exact .inr ⟨trivial, opener, rest, cause, rfl, rfl⟩
      · have within := Nat.lt_trans (takeGroup_length group) short
        obtain ⟨closer, partner, rfl⟩ := takeGroup_ok group
        have closes : closer.category = .rightParen := by
          rw [opens] at partner
          exact (Option.some.inj partner).symm
        simp only [readGroup, group]
        refine .inl ⟨opener :: (inner ++ [closer]), .group opens closes, by simp, ?_⟩
        exact .group partner (lays.parameters opener.position inner within)
    · exact .inl ⟨[], .absent, rfl, .refl []⟩

/-- A declaration up to its block: its signature and its attributes are read, or its end is lost
with the group of an attribute. -/
theorem readSignature {keyword : Lexeme} (names : List Lexeme) {rest : List Lexeme}
    (declares : keyword.Declares) (few : names.length ≤ 2) (named : ∀ name ∈ names, name.Names)
    (short : rest.length ≤ n) :
    Laid .phrase (g.readParameters rest).1 (keyword :: (names ++ rest))
        (readAttributes (g.readParameters rest).2).2 ∨
      (readAttributes (g.readParameters rest).2).2 = [] ∧
        EndsLost (g.readParameters rest).1 (keyword :: (names ++ rest)) := by
  rcases lays.readParameters rest short with
    ⟨signature, signed, same, laid⟩ | ⟨nothing, opener, inner, cause, rfl, fault⟩
  · have plain : keyword.Plain := Lexeme.plain_of_role declares.1 rfl rfl
    have parts : Laid .phrase (g.readParameters rest).1 (keyword :: (names ++ signature)) [] :=
      .skip_head plain (.trans ((Laid.names named).all_before signature) laid)
    have further := Laid.readAttributes (.intro declares few named signed) parts
      (g.readParameters rest).2
    rwa [List.cons_append, List.append_assoc, ← same] at further
  · refine .inl ?_
    rw [nothing, fault]
    exact .fault (keyword :: names) List.nil_suffix

/-- A declaration that must have a block. -/
theorem readDeclared {keyword : Lexeme} (names : List Lexeme) {rest : List Lexeme}
    {finish : Position} (declares : keyword.Declares) (few : names.length ≤ 2)
    (named : ∀ name ∈ names, name.Names) (ends : EndsAt finish (keyword :: (names ++ rest)))
    (short : rest.length ≤ n) (tree : List Node → List Node → Node)
    (reads : ∀ params body lexemes, (tree params body).ReadFrom lexemes)
    (parts : ∀ params body, (tree params body).children = params ++ body) :
    Laid .phrase
      [tree (g.readParameters rest).1
        (g.readBlock finish (readAttributes (g.readParameters rest).2).2).1]
      (keyword :: (names ++ rest))
      (g.readBlock finish (readAttributes (g.readParameters rest).2).2).2 := by
  refine .node (reads _ _ _) ?_
  rw [parts]
  rcases lays.readSignature names declares few named short with
    laid | ⟨nothing, intro, marks, lost, -, laid, -, final, same⟩
  · have within :=
      ((readAttributes_suffix _).trans (Consumes.readParameters (g := g) rest)).length_le
    exact lays.readBlock (Nat.le_trans within short) ends laid
  · rw [nothing]
    rw [same] at ends ⊢
    have filled : marks ++ lost ≠ [] := by
      cases final
      simp
    exact .trans (laid.all_before _) (.fault_last (ends.of_append filled))

/-! ## Primaries -/

theorem readRight {op : Lexeme} (plain : op.Plain) (level : Nat) (rest : List Lexeme)
    (short : rest.length ≤ n) :
    Laid .phrase [(g.readRight op level rest).1] (op :: rest) (g.readRight op level rest).2 := by
  rcases rest with _ | ⟨lexeme, rest⟩
  · exact .fault_head List.nil_suffix
  · exact .skip_head plain (lays.operation level lexeme rest short)

theorem readDereference {lexeme : Lexeme} (plain : lexeme.Plain) (sigil : Sigil)
    (rest : List Lexeme) (short : rest.length ≤ n) :
    Laid .phrase [(g.readDereference sigil lexeme rest).1] (lexeme :: rest)
      (g.readDereference sigil lexeme rest).2 := by
  rcases rest with _ | ⟨next, after⟩
  · exact .fault_head List.nil_suffix
  · -- What is dereferenced is the one part of the tree.
    have wrap {target : Node} {left : List Lexeme}
        (laid : Laid .phrase [target] (next :: after) left) :
        Laid .phrase [if lexeme.text = "$#" then .leading "$#" target
          else .dereference sigil target] (lexeme :: next :: after) left := by
      split <;> exact .node trivial (.skip_head plain laid)
    simp only [Grammar.readDereference]
    split
    · exact wrap (Laid.readGroup (fun tree => [tree])
        (fun inner _ left within partner =>
          lays.inside left (Nat.lt_trans within short) partner)
        fun _ => rfl)
    · split
      · exact wrap (lays.primary next after short)
      · exact .fault [lexeme] (List.suffix_refl _)

include c in
theorem readDeclaration {lexeme : Lexeme} (plain : lexeme.Plain) (rest : List Lexeme)
    (short : rest.length ≤ n) :
    Laid .phrase [(g.readDeclaration lexeme rest).1] (lexeme :: rest)
      (g.readDeclaration lexeme rest).2 := by
  rcases rest with _ | ⟨next, rest⟩
  · exact .node trivial (.fault_head List.nil_suffix)
  · simp only [Grammar.readDeclaration]
    split
    · refine .node trivial (.skip_head plain ?_)
      rw [Node.declare, Node.children, Option.toList_none, List.append_nil]
      exact lays.readGroupElements next rest (Nat.le_of_lt short)
    · have suffix := c.primary next rest
      exact .node trivial (.skip_head plain (lays.chain _ _ _
        (Nat.lt_of_le_of_lt suffix.length_le short) (lays.primary next rest short)))

theorem readParenthesized (opener : Lexeme) (rest : List Lexeme) (short : rest.length ≤ n) :
    Laid .phrase [(g.readParenthesized opener rest).1] (opener :: rest)
      (g.readParenthesized opener rest).2 := by
  refine Laid.readGroup (fun tree => [tree]) (fun inner closer left within partner => ?_)
    fun _ => rfl
  have short := Nat.lt_of_lt_of_le within short
  split
  · next empty =>
    rw [List.isEmpty_iff.mp empty]
    exact .node trivial (.group partner (.refl []))
  · split
    · exact .node trivial (.group partner (lays.readElements _ _ short))
    · exact lays.inside left short partner

theorem readFilehandle (rest : List Lexeme) (short : rest.length ≤ n) :
    Laid .phrase (g.readFilehandle rest).1.toList rest (g.readFilehandle rest).2 := by
  rcases rest with _ | ⟨first, rest⟩
  · exact .refl []
  · simp only [Grammar.readFilehandle]
    split
    · exact Laid.readGroup Option.toList
        (fun inner _ left within partner => lays.inside left (Nat.lt_trans within short) partner)
        fun _ => rfl
    · next role =>
      split
      · exact .refl _
      · exact .leaf rfl rfl (Lexeme.plain_of_role role rfl rfl)
    · next role =>
      split
      · rcases spelled : first.asVar? with _ | holder
        · exact .plain (Lexeme.plain_of_role role rfl rfl)
        · exact Laid.asVar? spelled
      · exact .refl _
    · exact .refl _

include c in
theorem readCall (name : String) (rest : List Lexeme) (short : rest.length ≤ n) :
    Laid .phrase [(g.readCall name rest).1] rest (g.readCall name rest).2 :=
  .node trivial (lays.readCallArguments c rest short)

theorem readAnonymousSub {keyword : Lexeme} (declares : keyword.Declares) (rest : List Lexeme)
    (short : rest.length ≤ n) :
    Laid .phrase [(g.readAnonymousSub keyword rest).1] (keyword :: rest)
      (g.readAnonymousSub keyword rest).2 := by
  simp only [Grammar.readAnonymousSub, lays.attributes]
  exact lays.readDeclared [] declares (Nat.zero_le 2)
    (fun _ member => absurd member List.not_mem_nil) (endsAt_lastPosition keyword rest) short
    (.sub none) (fun _ _ _ => trivial) fun _ _ => rfl

theorem readRequire {keyword : Lexeme} (plain : keyword.Plain) (rest : List Lexeme)
    (short : rest.length ≤ n) :
    Laid .phrase [(g.readRequire keyword rest).1] (keyword :: rest)
      (g.readRequire keyword rest).2 := by
  simp only [Grammar.readRequire]
  split
  · next word found =>
    obtain ⟨first, isWord⟩ := Option.filter_eq_some_iff.mp found
    rcases rest with _ | ⟨head, rest⟩
    · contradiction
    · obtain rfl := Option.some.inj first
      exact .node trivial (.skip_head plain (.leaf rfl rfl (Lexeme.plain_of_word isWord)))
  · exact .node trivial (lays.readRight plain _ _ short)

include c in
theorem readOutput (output : Output) (rest : List Lexeme) (short : rest.length ≤ n) :
    Laid .phrase [(g.readOutput output rest).1] rest (g.readOutput output rest).2 :=
  .node trivial (.trans (lays.readFilehandle rest short)
    (lays.readArguments c _ (Nat.le_trans (Consumes.readFilehandle rest).length_le short)))

include c in
theorem readAlarm (alarm : Alarm) (rest : List Lexeme) (short : rest.length ≤ n) :
    Laid .phrase [(g.readAlarm alarm rest).1] rest (g.readAlarm alarm rest).2 :=
  .node trivial (lays.readCallArguments c rest short)

include c in
theorem readKeyword {keyword : Lexeme} (role : keyword.category = .keyword) (rest : List Lexeme)
    (short : rest.length ≤ n) :
    Laid .phrase [(g.readKeyword keyword rest).1] (keyword :: rest)
      (g.readKeyword keyword rest).2 := by
  have plain : keyword.Plain := Lexeme.plain_of_role role rfl rfl
  simp only [Grammar.readKeyword]
  split
  · split
    · exact .skip_head plain (lays.readCall c _ _ short)
    · exact .skip_head plain (lays.readOutput c _ _ short)
  · split
    · exact .skip_head plain (lays.readCall c _ _ short)
    · exact .skip_head plain (lays.readOutput c _ _ short)
  · split
    · exact .skip_head plain (lays.readCall c _ _ short)
    · split
      · have body := lays.readBlock short (endsAt_lastPosition keyword rest) (.plain plain)
        exact .node trivial body
      · exact .node trivial (lays.readRight plain _ _ short)
  · split
    · exact .skip_head plain (lays.readCall c _ _ short)
    · exact lays.readRequire plain _ short
  · next spelled =>
    exact lays.readAnonymousSub ⟨role, by rw [spelled]; decide⟩ rest short
  · exact .skip_head plain (lays.readAlarm c _ _ short)
  · exact .skip_head plain (lays.readAlarm c _ _ short)
  · have values := lays.readArguments c rest short
    exact .node trivial (.skip_head plain values.valueOf)
  · exact Laid.readJump plain .last rest
  · exact Laid.readJump plain .next rest
  · exact Laid.readJump plain .redo rest
  · exact .fault_head (List.suffix_cons ..)

theorem readNamedOperand (rest : List Lexeme) (short : rest.length ≤ n) :
    Laid .phrase (g.readNamedOperand rest).1 rest (g.readNamedOperand rest).2 := by
  rcases rest with _ | ⟨lexeme, rest⟩
  · exact .refl []
  · simp only [Grammar.readNamedOperand]
    split
    · exact lays.operation _ lexeme rest short
    · exact .refl _

theorem readLeadingBlock {name : Lexeme} (plain : name.Plain) (rest : List Lexeme)
    (short : rest.length ≤ n) :
    Laid .phrase (g.readLeadingBlock name rest).1 (name :: rest)
      (g.readLeadingBlock name rest).2 := by
  simp only [Grammar.readLeadingBlock]
  split
  · have body := lays.readBlock short (endsAt_lastPosition name rest) (.plain plain)
    have block : Laid .phrase [.block none (g.readBlock (lastPosition name rest) rest).1]
        (name :: rest) (g.readBlock (lastPosition name rest) rest).2 := .node trivial body
    split
    · next comma =>
      generalize (g.readBlock (lastPosition name rest) rest).2 = left at *
      rcases left with _ | ⟨next, left⟩
      · contradiction
      · have role : next.category = .comma := by simpa [nextIs] using comma
        exact block.skip (Lexeme.plain_of_role role rfl rfl)
    · exact block
  · exact .plain plain

include c in
theorem readBuiltin {name : Lexeme} (plain : name.Plain) (rest : List Lexeme)
    (short : rest.length ≤ n) :
    Laid .phrase [(g.readBuiltin name rest).1] (name :: rest) (g.readBuiltin name rest).2 := by
  simp only [Grammar.readBuiltin]
  split
  · exact .leaf rfl rfl plain
  · split
    · exact .node trivial (.skip_head plain (lays.readNamedOperand rest short))
    · have suffix := Consumes.readLeadingBlock (g := g) name rest
      exact .node trivial (.trans (lays.readLeadingBlock plain rest short)
        (lays.readArguments c _ (Nat.le_trans suffix.length_le short)))

include c in
theorem readWord {name : Lexeme} (plain : name.Plain) (rest : List Lexeme)
    (short : rest.length ≤ n) :
    Laid .phrase [(g.readWord name rest).1] (name :: rest) (g.readWord name rest).2 := by
  simp only [Grammar.readWord]
  split
  · exact .leaf rfl rfl plain
  · split
    · exact .skip_head plain (lays.readCall c _ _ short)
    · split
      · exact lays.readBuiltin c plain _ short
      · split
        · exact .node trivial (.skip_head plain (lays.readArguments c _ short))
        · exact .leaf rfl rfl plain

include c in
theorem readPrimary (lexeme : Lexeme) (rest : List Lexeme) (short : rest.length ≤ n) :
    Laid .phrase [(g.readPrimary lexeme rest).1] (lexeme :: rest)
      (g.readPrimary lexeme rest).2 := by
  have spelled {kind : TokenKind} (same : lexeme.token.kind = kind) (word : kind ≠ .identifier)
      (opens : (Token.category ⟨kind, lexeme.text, lexeme.position⟩).isOpener = false)
      (closes : (Token.category ⟨kind, lexeme.text, lexeme.position⟩).isCloser = false) :
      lexeme.Plain := by
    subst same
    exact Lexeme.plain_of_kind word opens closes
  simp only [Grammar.readPrimary]
  split
  · next kind => exact .leaf rfl rfl (spelled kind (by simp) rfl rfl)
  · next kind => exact .leaf rfl rfl (spelled kind (by simp) rfl rfl)
  · next words kind =>
    exact .node trivial (.skip_head (spelled kind (by simp) rfl rfl) (.plains words rest))
  · next kind => exact .leaf rfl rfl (spelled kind (by simp) rfl rfl)
  · next kind =>
    simp only [Node.ofSpelling]
    split <;> exact .leaf rfl rfl (spelled kind (by simp) rfl rfl)
  · next kind => exact lays.readDereference (spelled kind (by simp) rfl rfl) _ _ short
  · split
    · next role =>
      exact .leaf rfl rfl (Lexeme.plain_of_role role rfl rfl)
    · exact Laid.readGroup (fun tree => [tree])
        (fun inner _ _ within partner => .node trivial
          (.group partner (lays.readElements _ inner (Nat.lt_of_lt_of_le within short))))
        fun _ => rfl
    · exact Laid.readGroup (fun tree => [tree])
        (fun inner _ _ within partner => .node trivial
          (.group partner (lays.readElements _ inner (Nat.lt_of_lt_of_le within short))))
        fun _ => rfl
    · exact lays.readParenthesized _ _ short
    · next role =>
      exact lays.readDeclaration c (Lexeme.plain_of_role role rfl rfl) _ short
    · next role => exact lays.readKeyword c role _ short
    · next role =>
      exact lays.readWord c (Lexeme.plain_of_role role rfl rfl) _ short
    · next role =>
      exact lays.readWord c (Lexeme.plain_of_role role rfl rfl) _ short
    · exact .fault_head (List.suffix_cons ..)

/-! ## Chains -/

omit lays in
/-- A variable may change its sigil. -/
theorem container {node : Node} {lexemes left : List Lexeme}
    (laid : Laid .phrase [node] lexemes left) (sigil : Sigil) :
    Laid .phrase [Grammar.container sigil node] lexemes left := by
  cases node with
  | var => exact .node trivial (laid.parts rfl)
  | dereference => exact .node trivial (laid.parts rfl)
  | _ => exact laid

omit lays in
theorem indexed {base index : Node} {opener : Lexeme} {lexemes rest left : List Lexeme}
    (laid : Laid .phrase [base] lexemes (opener :: rest))
    (within : Laid .phrase [index] (opener :: rest) left) :
    Laid .phrase [Grammar.indexed base opener index] lexemes left := by
  simp only [Grammar.indexed]
  split
  · split
    · exact .node trivial (.trans laid within)
    · exact .node trivial (.trans (container laid .array) within)
  · split <;> exact .node trivial (.trans (container laid .hash) within)

theorem readDirectSubscript {base : Node} {opener : Lexeme} {rest lexemes : List Lexeme}
    (laid : Laid .phrase [base] lexemes (opener :: rest)) (short : rest.length ≤ n) :
    Laid .phrase [(g.readDirectSubscript base opener rest).1] lexemes
      (g.readDirectSubscript base opener rest).2 := by
  refine Laid.readGroup_behind (fun tree => [tree]) laid
    (fun inner closer left same within partner => indexed laid ?_) fun _ => rfl
  rw [same]
  exact lays.readIndex left (Nat.lt_of_lt_of_le within short) partner

omit lays in
/-- What takes an index or arguments in a group behind it. -/
theorem readGroup_chained {base : Node} {opener : Lexeme} {rest lexemes : List Lexeme}
    (laid : Laid .phrase [base] lexemes (opener :: rest)) (short : rest.length ≤ n)
    {inside : List Lexeme → Node} {nodes : List Lexeme → List Node}
    (reads : ∀ inner, (inside inner).ReadFrom lexemes)
    (parts : ∀ inner, (inside inner).children = base :: nodes inner)
    (within : ∀ inner closer left, inner.length < n →
      opener.category.closer? = some closer.category →
        Laid .phrase (nodes inner) (opener :: (inner ++ closer :: left)) left) :
    Laid .phrase [(readGroup opener rest inside .error).1] lexemes
      (readGroup opener rest inside .error).2 := by
  refine Laid.readGroup_behind (fun tree => [tree]) laid
    (fun inner closer left same shorter partner => .node (reads inner) ?_) fun _ => rfl
  rw [parts]
  refine .trans laid ?_
  rw [same]
  exact within inner closer left (Nat.lt_of_lt_of_le shorter short) partner

theorem readPostfixDeref {base : Node} {lexeme : Lexeme} {rest lexemes : List Lexeme}
    (laid : Laid .phrase [base] lexemes (lexeme :: rest)) (plain : lexeme.Plain) (sigil : Sigil)
    (short : rest.length ≤ n) :
    Laid .phrase [(g.readPostfixDeref base lexeme sigil rest).1] lexemes
      (g.readPostfixDeref base lexeme sigil rest).2 := by
  rcases rest with _ | ⟨next, rest⟩
  · exact laid.fault_at List.nil_suffix
  · have onward : Laid .phrase [base] lexemes (next :: rest) := laid.skip plain
    simp only [Grammar.readPostfixDeref]
    split
    · next star => exact .node trivial (onward.skip (Lexeme.plain_of_operator star))
    · split
      · exact readGroup_chained onward (Nat.le_of_lt short) (fun _ => trivial) (fun _ => rfl)
          fun inner _ left within partner => lays.readIndex left within partner
      · exact onward.fault_at (List.suffix_refl _)

theorem readMethod {invocant : Node} {name : Lexeme} {rest lexemes : List Lexeme}
    (laid : Laid .phrase [invocant] lexemes (name :: rest)) (plain : name.Plain)
    (short : rest.length ≤ n) :
    Laid .phrase [(g.readMethod invocant name rest).1] lexemes
      (g.readMethod invocant name rest).2 :=
  .node trivial (.trans (laid.skip plain) (lays.readMethodArguments rest short))

theorem readArrow {base : Node} {arrow : Lexeme} {rest lexemes : List Lexeme}
    (laid : Laid .phrase [base] lexemes (arrow :: rest)) (role : arrow.category = .arrow)
    (short : rest.length ≤ n) :
    Laid .phrase [(g.readArrow base arrow rest).1] lexemes (g.readArrow base arrow rest).2 := by
  rcases rest with _ | ⟨next, rest⟩
  · exact laid.fault_at List.nil_suffix
  · have onward : Laid .phrase [base] lexemes (next :: rest) :=
      laid.skip (Lexeme.plain_of_role role rfl rfl)
    have short : rest.length ≤ n := Nat.le_of_lt short
    simp only [Grammar.readArrow]
    split
    · exact readGroup_chained onward short (fun _ => trivial) (fun _ => rfl)
        fun inner _ left within partner => lays.readIndex left within partner
    · exact readGroup_chained onward short (fun _ => trivial) (fun _ => rfl)
        fun inner _ left within partner => lays.readIndex left within partner
    · exact readGroup_chained onward short (fun _ => trivial) (fun _ => rfl)
        fun inner _ _ within partner => .group partner (lays.readElements _ inner within)
    · next role _ =>
      exact lays.readPostfixDeref onward (Lexeme.plain_of_role role rfl rfl) _ short
    · exact onward.fault_at (List.suffix_cons ..)
    · next role =>
      exact lays.readMethod onward (Lexeme.plain_of_role role rfl rfl) short
    · next word _ _ _ _ _ =>
      exact lays.readMethod onward (Lexeme.plain_of_word (decide_eq_true word)) short
    · exact onward.fault_at (List.suffix_cons ..)

theorem readChain {node : Node} {rest lexemes : List Lexeme}
    (laid : Laid .phrase [node] lexemes rest) (short : rest.length ≤ n) :
    Laid .phrase [(g.readChain node rest).1] lexemes (g.readChain node rest).2 := by
  rcases rest with _ | ⟨next, rest⟩
  · exact laid
  · have onward {tree : Node} {left : List Lexeme} (suffix : left <:+ rest)
        (laid : Laid .phrase [tree] lexemes left) :
        Laid .phrase [(g.chain tree left).1] lexemes (g.chain tree left).2 :=
      lays.chain _ _ _ (Nat.lt_of_le_of_lt suffix.length_le short) laid
    have below : rest.length ≤ n := Nat.le_of_lt short
    simp only [Grammar.readChain]
    split
    · split
      · exact onward (readGroup_suffix ..) (lays.readDirectSubscript laid below)
      · exact laid
    · split
      · exact onward (readGroup_suffix ..) (lays.readDirectSubscript laid below)
      · exact laid
    · next role => exact onward (Consumes.readArrow ..) (lays.readArrow laid role below)
    · next role =>
      split
      · have stepped := laid.skip (Lexeme.plain_of_role role rfl rfl)
        exact onward (List.suffix_refl _) (.node trivial stepped)
      · exact laid
    · exact laid

/-! ## Operators -/

include c in
theorem readAtom (lexeme : Lexeme) (rest : List Lexeme) (short : rest.length ≤ n) :
    Laid .phrase [(g.readAtom lexeme rest).1] (lexeme :: rest) (g.readAtom lexeme rest).2 :=
  lays.readChain (lays.readPrimary c lexeme rest short)
    (Nat.le_trans (c.readPrimary lexeme rest).length_le short)

theorem readLeading {op : Lexeme} (plain : op.Plain) (rest : List Lexeme)
    (short : rest.length ≤ n) :
    Laid .phrase [(g.readLeading op rest).1] (op :: rest) (g.readLeading op rest).2 := by
  rcases rest with _ | ⟨lexeme, rest⟩
  · exact .node trivial (.fault_head List.nil_suffix)
  · simp only [Grammar.readLeading]
    split
    · exact .node trivial (.skip_head plain (lays.operand lexeme rest short))
    · exact .node trivial (.skip_head plain (lays.operation _ lexeme rest short))

include c in
theorem readOperand (lexeme : Lexeme) (rest : List Lexeme) (short : rest.length ≤ n) :
    Laid .phrase [(g.readOperand lexeme rest).1] (lexeme :: rest)
      (g.readOperand lexeme rest).2 := by
  simp only [Grammar.readOperand]
  split
  · next role =>
    have plain : lexeme.Plain := Lexeme.plain_of_role role rfl rfl
    split
    · exact .node trivial (lays.readRight plain _ _ short)
    · exact lays.readLeading plain _ short
  · next role =>
    have plain : lexeme.Plain := Lexeme.plain_of_role role rfl rfl
    split
    · next next after _ =>
      split
      · exact .skip_head plain (lays.chain _ _ _
          (Nat.lt_of_le_of_lt (c.primary next after).length_le short)
          (lays.primary next after short))
      · exact lays.readLeading plain _ short
    · exact lays.readLeading plain _ short
    · exact lays.readLeading plain _ short
    · exact lays.readAtom c _ _ short
  · exact lays.readAtom c _ _ short

/-- A branch of a ternary behind its question mark; an empty one is a fault there. -/
theorem readBranch {question : Lexeme} (role : question.category = .question)
    (lexemes left : List Lexeme) (short : lexemes.length < n) :
    Laid .phrase [g.readBranch question.position lexemes] (question :: (lexemes ++ left)) left := by
  simp only [Grammar.readBranch]
  split
  · exact .fault_head ((List.suffix_append ..).trans (List.suffix_cons ..))
  · next filled =>
    exact .skip_head (Lexeme.plain_of_role role rfl rfl)
      ((lays.whole _ _ short fun empty => filled (by rw [empty]; rfl)).all_before left)

theorem readTernary {condition : Node} {question : Lexeme} {rest lexemes : List Lexeme}
    (laid : Laid .phrase [condition] lexemes (question :: rest))
    (role : question.category = .question) (short : rest.length < n) :
    Laid .phrase [(g.readTernary condition question rest).1] lexemes
      (g.readTernary condition question rest).2 := by
  simp only [Grammar.readTernary]
  split
  · have branch := lays.readBranch role rest [] short
    rw [List.append_nil] at branch
    exact .uncoloned role laid branch
  · next cut found =>
    have colon : cut.found.Plain := Lexeme.plain_of_role (cutAtColon?_found found) rfl rfl
    have whole := cutAtColon?_whole found
    rw [Cut.whole] at whole
    rw [← whole, List.length_append] at short
    rw [← whole] at laid
    have branch := lays.readBranch role cut.before (cut.found :: cut.after) (by omega)
    refine .node trivial (.trans laid (.trans branch ?_))
    generalize cut.after = after at *
    rcases after with _ | ⟨lexeme, after⟩
    · exact .fault_head List.nil_suffix
    · simp only [List.length_cons] at short
      exact .skip_head colon (lays.operation _ lexeme after (by omega))

include c in
theorem readClimb (level : Nat) {node : Node} {rest lexemes : List Lexeme}
    (laid : Laid .phrase [node] lexemes rest) (short : rest.length ≤ n) :
    Laid .phrase [(g.readClimb level node rest).1] lexemes (g.readClimb level node rest).2 := by
  rcases rest with _ | ⟨next, rest⟩
  · exact laid
  · simp only [Grammar.readClimb]
    split
    · next role =>
      split
      · exact laid
      · have suffix := c.readTernary node next rest
        exact lays.climb _ _ _ _ (Nat.lt_of_le_of_lt suffix.length_le short)
          (lays.readTernary laid role short)
    · next role =>
      split
      · exact laid
      · next binding _ =>
        have suffix := c.readRight next binding.rightLevel rest
        have right := lays.readRight (Lexeme.plain_of_role role rfl rfl) binding.rightLevel rest
          (Nat.le_of_lt short)
        exact lays.climb _ _ _ _ (Nat.lt_of_le_of_lt suffix.length_le short)
          (Laid.binary next.text (.trans laid right))
    · exact laid

include c in
theorem readOperation (level : Nat) (lexeme : Lexeme) (rest : List Lexeme)
    (short : rest.length ≤ n) :
    Laid .phrase [(g.readOperation level lexeme rest).1] (lexeme :: rest)
      (g.readOperation level lexeme rest).2 :=
  lays.readClimb c level (lays.readOperand c lexeme rest short)
    (Nat.le_trans (c.readOperand lexeme rest).length_le short)

include c in
theorem readItems (rest : List Lexeme) (short : rest.length ≤ n) :
    Laid .phrase (g.readItems rest).1 rest (g.readItems rest).2 := by
  rcases rest with _ | ⟨comma, rest⟩
  · exact .refl []
  · simp only [Grammar.readItems]
    split
    · next role =>
      have plain : comma.Plain := Lexeme.plain_of_role role rfl rfl
      rcases rest with _ | ⟨lexeme, after⟩
      · exact .plain plain
      · simp only
        split
        · exact .skip_head plain (lays.items _ short)
        · have suffix := c.operation Level.lowest lexeme after
          have below : after.length < n := Nat.lt_of_succ_lt short
          exact .skip_head plain (.trans (lays.operation _ lexeme after below)
            (lays.items _ (Nat.lt_of_le_of_lt suffix.length_le below)))
    · exact .refl _

include c in
theorem readWhole (anchor : Position) (lexemes : List Lexeme) (short : lexemes.length ≤ n)
    (filled : lexemes ≠ []) : Laid .phrase [g.readWhole anchor lexemes] lexemes [] := by
  rcases lexemes with _ | ⟨lexeme, rest⟩
  · contradiction
  · have below : rest.length ≤ n := Nat.le_of_lt short
    have suffix := c.readOperation Level.lowest lexeme rest
    have first := lays.readOperation c Level.lowest lexeme rest below
    simp only [Grammar.readWhole]
    split
    · have items := lays.readItems c _ (Nat.le_trans suffix.length_le below)
      exact Laid.finish (.node trivial (.trans first items))
    · exact Laid.finish first

end Lays

end Grammar

end SigilScript
