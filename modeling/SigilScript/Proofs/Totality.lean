import SigilScript.Proofs.Batches
import SigilScript.Proofs.Grammar.Production
import SigilScript.Proofs.Indices

/-! # Reading is total

On every stream of items, whatever their lexemes are, the calls for a tree answer the trees of the
stream one after the other and then nothing, and there are no more trees than items. A production
never moves its cursor back and never past its lexemes, it starts reading only what is shorter, and
the slices it takes are slices of what it was given. So the equations of the productions have one
solution, and that is what is parsed.
-/

namespace SigilScript

/-! ## Calls for a tree -/

/-- One call for a tree: its answer, and the items that it leaves. Statements without a tree are
passed over. -/
def nextTree (items : List Classified) : Option Node × List Classified :=
  if items = [] then (none, [])
  else
    match nodeOf? (contentOf (Boundary.start.batch items).1) with
    | some tree => (some tree, (Boundary.start.batch items).2)
    | none => nextTree (Boundary.start.batch items).2
termination_by items.length
decreasing_by exact Boundary.length_batch_lt ‹_›

/-- The items that so many calls leave. -/
def behindCalls (items : List Classified) : Nat → List Classified
  | 0 => items
  | calls + 1 => (nextTree (behindCalls items calls)).2

/-- What the call of this number answers, counted from zero. -/
def answerTo (items : List Classified) (call : Nat) : Option Node :=
  (nextTree (behindCalls items call)).1

/-- A call answers the first tree, and leaves items that have the other ones. -/
theorem nextTree_spec (items : List Classified) :
    (nextTree items).1 = (parseItems items).head? ∧
      parseItems (nextTree items).2 = (parseItems items).tail := by
  fun_induction nextTree items with
  | case1 => exact ⟨rfl, rfl⟩
  | case2 items nonempty tree read =>
    rw [parseItems_batch nonempty, read]
    exact ⟨rfl, rfl⟩
  | case3 items nonempty read ih =>
    rw [parseItems_batch nonempty, read]
    exact ih

theorem parseItems_behindCalls (items : List Classified) (calls : Nat) :
    parseItems (behindCalls items calls) = (parseItems items).drop calls := by
  induction calls with
  | zero => rfl
  | succ calls ih => rw [behindCalls, (nextTree_spec _).2, ih, List.tail_drop]

/-- The calls answer the trees of the items in their order, and then nothing. -/
theorem answerTo_eq (items : List Classified) (call : Nat) :
    answerTo items call = (parseItems items)[call]? := by
  rw [answerTo, (nextTree_spec _).1, parseItems_behindCalls, List.head?_drop]

theorem length_parseItems_le (items : List Classified) :
    (parseItems items).length ≤ items.length := by
  rw [parseItems_eq_batches (Nat.le_refl items.length)]
  exact Nat.le_trans (List.length_filterMap_le _ _) (Nat.le_of_eq List.length_range)

/-! ## Cursors -/

/-- What is left of an end of a list begins at an index of the list. -/
theorem exists_drop_of_suffix {span own rest left : List Lexeme} {position : Nat}
    (inside : position ≤ span.length) (given : span.drop position = own ++ rest)
    (suffix : left <:+ rest) :
    ∃ next, position + own.length ≤ next ∧ next ≤ span.length ∧ left = span.drop next := by
  have whole : left <:+ span :=
    suffix.trans ((List.suffix_append own rest).trans (given ▸ List.drop_suffix position span))
  have lengths := congrArg List.length given
  rw [List.length_drop, List.length_append] at lengths
  have shorter := suffix.length_le
  refine ⟨span.length - left.length, by omega, by omega, ?_⟩
  exact List.suffix_iff_eq_drop.mp whole

/-- As many rounds as there are lexemes read all attributes: the count does not run out before. -/
theorem readAttributesUpTo_eq {count : Nat} {rest : List Lexeme} (enough : rest.length ≤ count) :
    readAttributesUpTo count rest = readAttributes rest := by
  suffices same : ∀ fewer more (rest : List Lexeme), rest.length ≤ fewer → rest.length ≤ more →
      readAttributesUpTo fewer rest = readAttributesUpTo more rest from
    same _ _ rest enough (Nat.le_refl _)
  intro fewer
  induction fewer with
  | zero =>
    intro more rest none _
    obtain rfl := List.length_eq_zero_iff.mp (Nat.le_zero.mp none)
    cases more <;> rfl
  | succ fewer ih =>
    intro more rest short short'
    rcases rest with _ | ⟨colon, _ | ⟨word, rest⟩⟩
    · cases more <;> rfl
    · cases more <;> rfl
    · obtain ⟨more, rfl⟩ : ∃ lower, more = lower + 1 := ⟨more - 1, by
        simp only [List.length_cons] at short'
        omega⟩
      have behind := (readAttributeGroup_suffix rest).length_le
      simp only [List.length_cons] at short short'
      simp only [readAttributesUpTo, ih more (readAttributeGroup rest).2 (by omega) (by omega)]

namespace Grammar

/-- A grammar that reads every list to its end. -/
structure Total (g : Grammar) : Prop where
  /-- Its productions are what the equations of the productions say. -/
  solves : g.step = g
  /-- No other grammar satisfies these equations. -/
  alone : ∀ other : Grammar, other.step = other → other.attributes = g.attributes → other = g
  /-- A production goes on behind its own lexeme and stops at the end of its list at the latest. -/
  advances : ∀ {α : Type} {own : List Lexeme} {read : Grammar → List Lexeme → Parse α},
    Production own read ∨ StatementProduction own read →
    ∀ {span rest : List Lexeme} {position : Nat}, position ≤ span.length →
      span.drop position = own ++ rest →
      ∃ next, position + own.length ≤ next ∧ next ≤ span.length ∧ (read g rest).2 = span.drop next
  /-- A production reads with this grammar only what is shorter than its own list. -/
  shorter : ∀ {α : Type} {own : List Lexeme} {read : Grammar → List Lexeme → Parse α},
    Production own read → ∀ {rest : List Lexeme} {other : Grammar},
      AgreeBelow (own ++ rest).length other g → read other rest = read g rest
  /-- A production of statements starts reading only what is shorter than its own list. -/
  starts : ∀ {α : Type} {own : List Lexeme} {read : Grammar → List Lexeme → Parse α},
    StatementProduction own read → ∀ {rest : List Lexeme} {other : Grammar},
      StartAlike (own ++ rest).length other g → read other rest = read g rest

theorem total_full : full.Total where
  solves := step_full
  alone _ solves attributes := eq_full_of_step_eq solves attributes
  advances production _ _ _ inside given :=
    exists_drop_of_suffix inside given (production.elim (·.suffix _) (·.suffix _))
  shorter production _ _ agree := production.alike agree
  starts production _ _ alike := production.alike alike

end Grammar

/-! ## Slices -/

/-- The indices that searches find in a list are indices of the list, and what is taken at them are
slices of the list. -/
structure SlicesInside (span : List Lexeme) : Prop where
  groups : ∀ start opener closer, span[start]? = some opener →
    opener.category.closer? = some closer →
    match matchingClose span opener.category closer start with
    | .ok close => start < close ∧ close < span.length ∧
        takeGroup opener (span.drop (start + 1)) =
          (.ok (span.extract (start + 1) close), span.drop (close + 1))
    | .error fault => takeGroup opener (span.drop (start + 1)) = (.error fault, [])
  branches : ∀ question,
    match ternaryColon? span question with
    | some colon => ∃ cut, cutAtColon? 0 0 (span.drop (question + 1)) = some cut ∧
        cut.At span (question + 1) colon
    | none => cutAtColon? 0 0 (span.drop (question + 1)) = none
  modifiers :
    match findTopLevel? span 0 Lexeme.isModifier with
    | some place => ∃ cut, cutAtTopLevel? Lexeme.isModifier 0 span = some cut ∧
        cut.At span 0 place ∧ cut.before.length < span.length ∧ cut.after.length < span.length
    | none => cutAtTopLevel? Lexeme.isModifier 0 span = none
  /-- The elements of a list, the parameters of a signature and the clauses of a loop. -/
  parts : ∀ separator, span ≠ [] →
    (∀ place ∈ topLevelPositions span 0 fun lexeme => lexeme.category = separator,
      place < span.length) ∧
    (topLevelPositions span 0 fun lexeme => lexeme.category = separator).Pairwise (· < ·) ∧
    splitTopLevel span separator = slicesBetween span 0
      (topLevelPositions span 0 fun lexeme => lexeme.category = separator)
  /-- What stands behind the variable of a parameter. -/
  tails : ∀ holder, span.head?.bind Lexeme.asVar? = some holder →
    1 ≤ span.length ∧ span.tail = span.extract 1 span.length

theorem slicesInside (span : List Lexeme) : SlicesInside span where
  groups _ _ _ opens partner := takeGroup_matchingClose opens partner
  branches question := cutAtColon?_ternaryColon? span question
  modifiers := by
    have search := cutAtTopLevel?_findTopLevel? Lexeme.isModifier span 0
    split
    · next place found =>
      simp only [found, List.drop_zero] at search
      obtain ⟨cut, cuts, place⟩ := search
      have whole := congrArg List.length (cutAtTopLevel?_whole cuts)
      rw [Cut.whole, List.length_append, List.length_cons] at whole
      exact ⟨cut, cuts, place, by omega, by omega⟩
    · next found =>
      simpa only [found, List.drop_zero] using search
  parts separator nonempty := by
    obtain ⟨within, ordered⟩ :=
      topLevelPositions_bounds span 0 fun lexeme => lexeme.category = separator
    exact ⟨fun place member => (within place member).2, ordered,
      splitTopLevel_eq_slicesBetween separator nonempty⟩
  tails holder spelled := by
    obtain ⟨first, head, -⟩ := Option.bind_eq_some_iff.mp spelled
    obtain ⟨rest, rfl⟩ := List.head?_eq_some_iff.mp head
    refine ⟨Nat.le_add_left .., ?_⟩
    rw [List.extract_eq_take_drop, List.take_of_length_le (by simp)]
    rfl

/-- Reading is total on any items: the calls for a tree answer no more trees than there are items,
and then nothing; the tree of a statement is what the one grammar reads that solves the equations of
the productions, which never move a cursor back or past their lexemes and start reading only what
is shorter; and every slice they take is one of their lexemes. -/
theorem reading_total :
    (∀ items, (parseItems items).length ≤ items.length ∧
      ∀ call, answerTo items call = (parseItems items)[call]?) ∧
    (∀ lexemes, parseStatement lexemes = Grammar.full.readStatement lexemes) ∧
    Grammar.full.Total ∧
    (∀ count rest, rest.length ≤ count → readAttributesUpTo count rest = readAttributes rest) ∧
    ∀ span, SlicesInside span :=
  ⟨fun items => ⟨length_parseItems_le items, answerTo_eq items⟩, parseStatement_eq,
    Grammar.total_full, fun _ _ => readAttributesUpTo_eq, slicesInside⟩

/-- A statement with faults is one tree, behind which a call answers nothing; the group in it is a
slice, and an operand that begins with the group goes on behind the parenthesis. -/
theorem reading_total_uncoloned :
    answerTo (classifyAll (scan "1 ? (2;) 3;".toList)) 1 = none ∧
      takeGroup ⟨⟨.openParen, "(", ⟨1, 5⟩⟩, .leftParen⟩
          ((lexemesOf (classifyAll (scan "1 ? (2;) 3;".toList))).drop 3) =
        (.ok ((lexemesOf (classifyAll (scan "1 ? (2;) 3;".toList))).extract 3 5),
          (lexemesOf (classifyAll (scan "1 ? (2;) 3;".toList))).drop 6) ∧
      ∃ next, 2 < next ∧ next ≤ 8 ∧
        (Grammar.full.readOperand ⟨⟨.openParen, "(", ⟨1, 5⟩⟩, .leftParen⟩
          ((lexemesOf (classifyAll (scan "1 ? (2;) 3;".toList))).drop 3)).2 =
            (lexemesOf (classifyAll (scan "1 ? (2;) 3;".toList))).drop next := by
  obtain ⟨calls, -, total, -, slices⟩ := reading_total
  refine ⟨?_, ?_, ?_⟩
  · have answer := (calls (classifyAll (scan "1 ? (2;) 3;".toList))).2 1
    rw [answer]
    with_unfolding_all rfl
  · have opens : (lexemesOf (classifyAll (scan "1 ? (2;) 3;".toList)))[2]? =
        some ⟨⟨.openParen, "(", ⟨1, 5⟩⟩, .leftParen⟩ := by with_unfolding_all rfl
    have found : matchingClose (lexemesOf (classifyAll (scan "1 ? (2;) 3;".toList)))
        .leftParen .rightParen 2 = .ok 5 := by with_unfolding_all rfl
    have group := (slices _).groups 2 _ .rightParen opens rfl
    rw [found] at group
    exact group.2.2
  · have given : (lexemesOf (classifyAll (scan "1 ? (2;) 3;".toList))).drop 2 =
        [⟨⟨.openParen, "(", ⟨1, 5⟩⟩, .leftParen⟩] ++
          (lexemesOf (classifyAll (scan "1 ? (2;) 3;".toList))).drop 3 := by
      with_unfolding_all rfl
    have inside : 2 ≤ (lexemesOf (classifyAll (scan "1 ? (2;) 3;".toList))).length := by decide
    exact total.advances (.inl (.operand _)) inside given

end SigilScript
