import SigilScript.Proofs.Comma.Expression
import SigilScript.Proofs.Grammar.Shape

/-! # Parentheses

A comma list is read in two ways. Without parentheses its elements are read one after the other,
each as far as it goes, and a list operator among them goes on past the comma behind its argument.
In parentheses the list is cut at its commas first, and each piece is read alone. Where no element
goes past its comma the two make the same tree; where there is no comma, parentheses change nothing.
-/

namespace SigilScript

/-! ## Cutting at separators -/

/-- A list that begins with a separator is cut there. -/
theorem ne_of_cut {separator : Category} {rest : List Lexeme} {lexeme : Lexeme}
    {cut : Option Cut}
    (found : cutAtTopLevel? (fun lexeme => lexeme.category = separator) 0 (lexeme :: rest) = cut)
    (later : ∀ inner ∈ cut, inner.before ≠ []) : lexeme.category ≠ separator := by
  intro separates
  simp only [cutAtTopLevel?, separates, decide_true, and_self, ↓reduceIte] at found
  exact later _ found.symm rfl

/-! ## Elements -/

/-- The tree of an element that is read alone. A word, or a word behind a minus sign, is a string
before a fat comma. -/
def Segment.element (anchor : Position) (segment : Segment) : Node :=
  match (segment.separator.filter Lexeme.isFatComma).bind fun _ =>
      barewordKey? segment.lexemes with
  | some key => .plain key
  | none => parseExpression anchor segment.lexemes

/-- The trees of the elements that are not empty. -/
def elements (anchor : Position) (segments : List Segment) : List Node :=
  (segments.filter fun segment => !segment.lexemes.isEmpty).map (Segment.element anchor)

theorem elements_cons_of_ne_nil {segment : Segment} (anchor : Position) (segments : List Segment)
    (nonempty : segment.lexemes ≠ []) :
    elements anchor (segment :: segments) = segment.element anchor :: elements anchor segments := by
  simp [elements, nonempty]

/-- The items of a group are its elements, each read alone. -/
theorem Grammar.readElements_eq (anchor : Position) (lexemes : List Lexeme) :
    full.readElements anchor lexemes = elements anchor (segmentsAt .comma lexemes) := by
  have alone (lexemes : List Lexeme) :
      full.whole anchor lexemes = parseExpression anchor lexemes := by
    rw [parseExpression_eq, full_whole]
  simp only [readElements, alone]
  induction segmentsAt .comma lexemes with
  | nil => rfl
  | cons segment segments ih =>
    rw [List.filterMap_cons, ih]
    rcases segment with ⟨_ | ⟨lexeme, rest⟩, separator⟩
    · rfl
    · rw [elements_cons_of_ne_nil anchor segments (List.cons_ne_nil lexeme rest), Segment.element]
      simp only [List.isEmpty_cons, Bool.false_eq_true, ↓reduceIte]
      rcases (separator.filter Lexeme.isFatComma).bind fun _ => barewordKey? (lexeme :: rest) with
        _ | key <;> rfl

/-! ## Elements in their places -/

/-- What is read of a segment with all that follows it leaves its separator, and so no list
operator in it takes one. -/
def Segment.Ends (segment : Segment) (segments : List Segment) : Prop :=
  ∀ lexeme rest, segment.lexemes = lexeme :: rest →
    (Grammar.full.operation Level.lowest lexeme
      (rest ++ (segment.separator.toList ++ segments.flatMap Segment.whole))).2 =
        segment.separator.toList ++ segments.flatMap Segment.whole

/-- What stands before a fat comma is a name, or else no key, and does not end in a name. -/
def Segment.Keyed (segment : Segment) : Prop :=
  ∀ comma ∈ segment.separator, comma.isFatComma = true →
    (∃ word, segment.lexemes = [word] ∧ word.isWord = true ∧ word.IsName) ∨
      barewordKey? segment.lexemes = none ∧ Unquoted segment.lexemes

/-- Segments that are read in their places as they are read alone. -/
inductive Apart : List Segment → Prop where
  | nil : Apart []
  | cons {segment : Segment} {segments : List Segment} (ends : segment.Ends segments)
    (keyed : segment.Keyed) (further : Apart segments) : Apart (segment :: segments)

/-- Only two kinds of tokens are commas. -/
theorem kind_of_comma {lexeme : Lexeme} (role : lexeme.category = .comma)
    (classified : ∃ previous, lexeme = lexeme.token.classify previous) :
    lexeme.token.kind = .comma ∨ lexeme.token.kind = .fatComma := by
  obtain ⟨previous, classified⟩ := classified
  rw [classified] at role
  rcases lexeme with ⟨⟨kind, text, position⟩, category⟩
  cases kind with
  | comma => exact .inl rfl
  | fatComma => exact .inr rfl
  | identifier =>
    simp only [Token.classify, Token.categoryAfter, Token.category, Category.ofWord] at role
    repeat' split at role
    all_goals contradiction
  | operator =>
    simp only [Token.classify, Token.categoryAfter, Token.category, Category.ofOperator] at role
    split at role <;> contradiction
  | _ => simp [Token.classify, Token.categoryAfter, Token.category] at role

namespace Grammar

variable {lexeme found : Lexeme} {rest after : List Lexeme}

/-- A whole that is one operation is read as the operation. -/
theorem parseExpression_of_operation (anchor : Position) {value : Node}
    (read : full.operation Level.lowest lexeme rest = (value, [])) :
    parseExpression anchor (lexeme :: rest) = value := by
  rw [full_operation] at read
  rw [parseExpression_eq]
  simp only [readWhole, read]
  rfl

/-- A name before a fat comma is read as a string, and the comma is left. -/
theorem operation_key (word : lexeme.isWord = true) (names : lexeme.IsName)
    (role : found.category = .comma) (fat : found.isFatComma = true) (level : Nat) :
    full.operation level lexeme (found :: after) = (.plain lexeme.text, found :: after) := by
  have kind : lexeme.token.kind = .identifier := of_decide_eq_true word
  have primary : full.readPrimary lexeme (found :: after) =
      (.plain lexeme.text, found :: after) := by
    rcases names with names | names <;>
      simp only [readPrimary, kind, names, readWord, List.head?_cons, Option.any_some, fat,
        ↓reduceIte]
  rw [full_operation]
  rcases names with names | names <;>
    simp only [readOperation, readOperand, names, readAtom, primary, readChain, role, readClimb]

/-- An element that leaves its comma is read in its place as it is read alone. -/
theorem operation_element (anchor : Position) (ends : AtComma (found :: after))
    (keyed : Segment.Keyed ⟨lexeme :: rest, some found⟩)
    (sound : (full.operation Level.lowest lexeme (rest ++ found :: after)).1.faults = [])
    (leaves : (full.operation Level.lowest lexeme (rest ++ found :: after)).2 = found :: after) :
    (full.operation Level.lowest lexeme (rest ++ found :: after)).1 =
      Segment.element anchor ⟨lexeme :: rest, some found⟩ := by
  have alone (quiet : Quiet (found :: after) (lexeme :: rest)) :=
    parseExpression_of_operation anchor (operation_alone ends quiet sound leaves)
  by_cases fat : found.isFatComma = true
  · rcases keyed found rfl fat with ⟨word, same, spelled, names⟩ | ⟨noKey, unquoted⟩
    · obtain ⟨rfl, rfl⟩ := List.cons.inj same
      have role : found.category = .comma := by
        cases ends
        assumption
      rw [List.nil_append, operation_key spelled names role fat, Segment.element]
      simp only [Option.filter_some, fat, ↓reduceIte, Option.bind_some, barewordKey?, spelled]
    · rw [Segment.element]
      simp only [Option.filter_some, fat, ↓reduceIte, Option.bind_some, noKey]
      exact (alone fun _ => unquoted).symm
  · rw [Segment.element]
    simp only [Option.filter_some, fat, Bool.false_eq_true, ↓reduceIte, Option.bind_none]
    exact (alone fun fat' => absurd fat' (by simpa using fat)).symm

theorem readItems_item {comma : Lexeme} (role : comma.category = .comma)
    (plain : lexeme.category ≠ .comma) :
    full.readItems (comma :: lexeme :: rest) =
      ((full.operation Level.lowest lexeme rest).1 ::
          (full.items (full.operation Level.lowest lexeme rest).2).1,
        (full.items (full.operation Level.lowest lexeme rest).2).2) :=
  (if_pos role).trans (if_neg plain)

theorem readItems_comma {comma : Lexeme} (role : comma.category = .comma)
    (again : lexeme.category = .comma) :
    full.readItems (comma :: lexeme :: rest) = full.items (lexeme :: rest) :=
  (if_pos role).trans (if_pos again)

/-- Behind a comma the items of a list are the elements there, each read alone. -/
theorem items_elements (anchor : Position) {comma : Lexeme} {lexemes : List Lexeme}
    (role : comma.category = .comma)
    (kinds : ∀ other ∈ lexemes, other.category = .comma →
      other.token.kind = .comma ∨ other.token.kind = .fatComma)
    (apart : Apart (segmentsFrom .comma 0 lexemes))
    (sound : Node.faultsOfAll (full.items (comma :: lexemes)).1 = []) :
    full.items (comma :: lexemes) = (elements anchor (segmentsFrom .comma 0 lexemes), []) := by
  induction size : lexemes.length using Nat.strongRecOn generalizing comma lexemes with
  | _ n ih =>
    have ended : full.items [] = ([], []) := by
      rw [full_items]
      rfl
    rw [full_items] at sound ⊢
    rw [segmentsFrom_eq rfl rfl] at apart ⊢
    rcases cut : cutAtTopLevel? (fun lexeme => lexeme.category = .comma) 0 lexemes with
      _ | ⟨before, found, after⟩
    · rw [cut] at apart
      rcases lexemes with _ | ⟨lexeme, rest⟩
      · simp only [readItems, role, ↓reduceIte]
        rfl
      · cases apart with
        | cons ends keyed further =>
          have leaves := ends lexeme rest rfl
          simp only [Option.toList_none, List.flatMap_nil, List.append_nil] at leaves
          have read := parseExpression_of_operation anchor (Prod.ext rfl leaves)
          rw [readItems_item role (ne_of_cut cut (by simp)), leaves, ended]
          have last : elements anchor [⟨lexeme :: rest, none⟩] =
              [parseExpression anchor (lexeme :: rest)] := rfl
          simp only [last, read]
    · have whole := cutAtTopLevel?_whole cut
      have role' : found.category = .comma := of_decide_eq_true (cutAtTopLevel?_found cut)
      simp only [Cut.whole] at whole
      obtain rfl := whole
      rw [cut] at apart
      cases apart with
      | cons ends keyed further =>
        have shorter : after.length < n := by
          simp only [List.length_append, List.length_cons] at size
          omega
        have kinds' := fun other member =>
          kinds other (List.mem_append_right before (List.mem_cons_of_mem found member))
        have fence : AtComma (found :: after) := .comma role' (kinds found (by simp) role') after
        rcases before with _ | ⟨lexeme, rest⟩
        · rw [List.nil_append, readItems_comma role role'] at sound ⊢
          exact ih after.length shorter role' kinds' further sound rfl
        · have leaves := ends lexeme rest rfl
          simp only [Option.toList_some, List.singleton_append, flatMap_whole_segmentsFrom]
            at leaves
          rw [List.cons_append, readItems_item role (ne_of_cut cut (by simp)), leaves] at sound ⊢
          obtain ⟨first, others⟩ := List.append_eq_nil_iff.mp sound
          rw [operation_element anchor fence keyed first leaves,
            ih after.length shorter role' kinds' further others rfl]
          rfl

/-- What is read as a whole is one operation, or begins with one that a comma follows. -/
theorem parseExpression_cases (anchor : Position) (lexeme : Lexeme) (rest : List Lexeme) :
    parseExpression anchor (lexeme :: rest) =
      if nextIs .comma (full.operation Level.lowest lexeme rest).2 then
        .finish (.list ((full.operation Level.lowest lexeme rest).1 ::
            (full.items (full.operation Level.lowest lexeme rest).2).1),
          (full.items (full.operation Level.lowest lexeme rest).2).2)
      else .finish (full.operation Level.lowest lexeme rest) := by
  rw [parseExpression_eq, full_operation, full_items]
  rfl

theorem faults_first {anchor : Position}
    (sound : (parseExpression anchor (lexeme :: rest)).faults = []) :
    (full.operation Level.lowest lexeme rest).1.faults = [] := by
  rw [parseExpression_cases] at sound
  split at sound
  · obtain ⟨node, finished, kept⟩ := finish_sound sound
    obtain ⟨rfl, -⟩ := Prod.mk.inj finished
    exact (List.append_eq_nil_iff.mp kept).1
  · obtain ⟨node, finished, kept⟩ := finish_sound sound
    rwa [finished]

/-- A comma list without faults is that of its elements, each read alone. -/
theorem parseExpression_elements {anchor : Position} (anchor' : Position) {lexemes : List Lexeme}
    (kinds : ∀ other ∈ lexemes, other.category = .comma →
      other.token.kind = .comma ∨ other.token.kind = .fatComma)
    (commas : hasTopLevel lexemes .comma = true) (apart : Apart (segmentsAt .comma lexemes))
    (sound : (parseExpression anchor lexemes).faults = []) :
    parseExpression anchor lexemes = .list (elements anchor' (segmentsAt .comma lexemes)) := by
  obtain ⟨⟨before, found, after⟩, cut⟩ := Option.isSome_iff_exists.mp commas
  have whole := cutAtTopLevel?_whole cut
  have role : found.category = .comma := of_decide_eq_true (cutAtTopLevel?_found cut)
  simp only [Cut.whole] at whole
  obtain rfl := whole
  have fence : AtComma (found :: after) := .comma role (kinds found (by simp) role) after
  have segments : segmentsAt .comma (before ++ found :: after) =
      ⟨before, some found⟩ :: segmentsFrom .comma 0 after := by
    have same : segmentsAt .comma (before ++ found :: after) =
        segmentsFrom .comma 0 (before ++ found :: after) := by
      cases before <;> rfl
    rw [same, segmentsFrom_eq rfl rfl, cut]
  rw [segments] at apart ⊢
  rcases before with _ | ⟨lexeme, rest⟩
  · -- A list without faults does not begin with a comma.
    exact absurd (faults_first sound) (faults_operation fence Level.lowest)
  · cases apart with
    | cons ends keyed further =>
      have leaves := ends lexeme rest rfl
      simp only [Option.toList_some, List.singleton_append, flatMap_whole_segmentsFrom] at leaves
      have comma := fence.nextIs_comma
      have first := operation_element anchor' fence keyed (faults_first sound) leaves
      rw [List.cons_append, parseExpression_cases, leaves, if_pos comma] at sound ⊢
      obtain ⟨node, finished, kept⟩ := finish_sound sound
      obtain ⟨rfl, -⟩ := Prod.mk.inj finished
      have others := items_elements anchor' role
        (fun other member =>
          kinds other (List.mem_append_right _ (List.mem_cons_of_mem found member)))
        further (List.append_eq_nil_iff.mp kept).2
      rw [others, first, elements_cons_of_ne_nil anchor' _ (List.cons_ne_nil lexeme rest)]
      rfl

/-- What stands in parentheses is the list of its elements where it holds a comma, and is read as it
is without them where it does not. -/
theorem parseExpression_group (anchor anchor' : Position) {opener closer : Lexeme}
    {lexemes : List Lexeme} (nested : Nested lexemes) (nonempty : lexemes ≠ [])
    (kind : opener.token.kind = .openParen) (opens : opener.category = .leftParen)
    (closes : closer.category = .rightParen) :
    parseExpression anchor (opener :: (lexemes ++ [closer])) =
      if hasTopLevel lexemes .comma then
        .list (elements opener.position (segmentsAt .comma lexemes))
      else parseExpression anchor' lexemes := by
  have taken : takeGroup opener (lexemes ++ [closer]) = (.ok lexemes, []) :=
    takeGroup_nested (by rw [opens, closes]; rfl) nested []
  have given : lexemes.isEmpty = false := List.isEmpty_eq_false_iff.mpr nonempty
  have inside : full.whole opener.position lexemes = parseExpression anchor' lexemes := by
    obtain ⟨lexeme, rest, rfl⟩ := List.exists_cons_of_ne_nil nonempty
    rw [full_whole, parseExpression_eq]
    rfl
  have primary : full.readPrimary opener (lexemes ++ [closer]) =
      (if hasTopLevel lexemes .comma then
        .list (elements opener.position (segmentsAt .comma lexemes))
      else parseExpression anchor' lexemes, []) := by
    simp only [readPrimary, kind, opens, readParenthesized, readGroup, taken, given,
      Bool.false_eq_true, ↓reduceIte, readElements_eq, inside]
  apply parseExpression_of_operation
  rw [full_operation]
  simp only [readOperation, readOperand, opens, readAtom, primary, readChain, readClimb]

end Grammar

/-- Parentheses around an expression without faults make the list of its elements, each read alone,
if it holds a comma of its own, and change nothing if it holds none. Nor do they change anything
where no element goes past its comma and what is quoted before a fat comma is quoted either way. -/
theorem parseExpression_parenthesized {anchor anchor' : Position} {opener closer : Lexeme}
    {lexemes : List Lexeme} (nested : Nested lexemes)
    (classified : ∀ lexeme ∈ opener :: (lexemes ++ [closer]),
      ∃ previous, lexeme = lexeme.token.classify previous)
    (opens : opener.category = .leftParen) (closes : closer.category = .rightParen)
    (sound : (parseExpression anchor lexemes).faults = []) :
    parseExpression anchor' (opener :: (lexemes ++ [closer])) =
        (if hasTopLevel lexemes .comma then
          .list (elements opener.position (segmentsAt .comma lexemes))
        else parseExpression anchor lexemes) ∧
      (Apart (segmentsAt .comma lexemes) →
        parseExpression anchor' (opener :: (lexemes ++ [closer])) =
          parseExpression anchor lexemes) := by
  have nonempty : lexemes ≠ [] := by
    rintro rfl
    rw [parseExpression_eq] at sound
    contradiction
  have kind : opener.token.kind = .openParen := by
    obtain ⟨previous, same⟩ := classified opener List.mem_cons_self
    exact Grammar.kind_of_leftParen ((Lexeme.category_of_classified same).symm.trans opens)
  have group := Grammar.parseExpression_group anchor' anchor nested nonempty kind opens closes
  refine ⟨group, fun apart => ?_⟩
  rw [group]
  split
  · next commas =>
    have kinds (other : Lexeme) (member : other ∈ lexemes) (role : other.category = .comma) :=
      kind_of_comma role (classified other
        (List.mem_cons_of_mem opener (List.mem_append_left [closer] member)))
    exact (Grammar.parseExpression_elements opener.position kinds commas apart sound).symm
  · rfl

/-- A key and its value. -/
def keyOne : List Lexeme :=
  [⟨⟨.identifier, "a", ⟨1, 2⟩⟩, .identifier⟩, ⟨⟨.fatComma, "=>", ⟨1, 4⟩⟩, .comma⟩,
    ⟨⟨.number, "1", ⟨1, 7⟩⟩, .literal⟩]

/-- A key and its value in parentheses. -/
theorem parseExpression_parenthesized_key :
    parseExpression ⟨1, 1⟩ (⟨⟨.openParen, "(", ⟨1, 1⟩⟩, .leftParen⟩ ::
        (keyOne ++ [⟨⟨.closeParen, ")", ⟨1, 8⟩⟩, .rightParen⟩])) =
      parseExpression ⟨1, 2⟩ keyOne := by
  have nested : Nested keyOne := .plain rfl rfl (.plain rfl rfl (.plain rfl rfl .nil))
  have sound : (parseExpression ⟨1, 2⟩ keyOne).faults = [] := by with_unfolding_all rfl
  have apart : Apart (segmentsAt .comma keyOne) := by
    refine .cons (fun lexeme rest same => ?_) (fun comma member fat => .inl ⟨_, rfl, rfl, .inl rfl⟩)
      (.cons (fun lexeme rest same => ?_) (fun comma member => by contradiction) .nil)
    · obtain ⟨rfl, rfl⟩ := List.cons.inj same
      with_unfolding_all rfl
    · obtain ⟨rfl, rfl⟩ := List.cons.inj same
      with_unfolding_all rfl
  refine (parseExpression_parenthesized nested (fun lexeme member => ⟨none, ?_⟩) rfl rfl sound).2
    apart
  revert lexeme
  decide

/-- Something to be appended to an array. -/
def pushOne : List Lexeme :=
  [⟨⟨.identifier, "push", ⟨1, 2⟩⟩, .builtin⟩, ⟨⟨.var .array, "@a", ⟨1, 7⟩⟩, .var⟩,
    ⟨⟨.comma, ",", ⟨1, 9⟩⟩, .comma⟩, ⟨⟨.number, "1", ⟨1, 11⟩⟩, .literal⟩]

/-- A list operator takes the comma behind its argument, but not in parentheses. -/
theorem parseExpression_parenthesized_push :
    Nested pushOne ∧ (parseExpression ⟨1, 2⟩ pushOne).faults = [] ∧
      parseExpression ⟨1, 2⟩ pushOne = .call "push" [.var .array "a", .number "1"] ∧
      parseExpression ⟨1, 1⟩ (⟨⟨.openParen, "(", ⟨1, 1⟩⟩, .leftParen⟩ ::
        (pushOne ++ [⟨⟨.closeParen, ")", ⟨1, 12⟩⟩, .rightParen⟩])) ≠
          parseExpression ⟨1, 2⟩ pushOne := by
  have plain : parseExpression ⟨1, 2⟩ pushOne = .call "push" [.var .array "a", .number "1"] := by
    with_unfolding_all rfl
  have grouped : parseExpression ⟨1, 1⟩ (⟨⟨.openParen, "(", ⟨1, 1⟩⟩, .leftParen⟩ ::
      (pushOne ++ [⟨⟨.closeParen, ")", ⟨1, 12⟩⟩, .rightParen⟩])) =
        .list [.call "push" [.var .array "a"], .number "1"] := by
    with_unfolding_all rfl
  refine ⟨.plain rfl rfl (.plain rfl rfl (.plain rfl rfl (.plain rfl rfl .nil))), ?_, plain, ?_⟩
  · rw [plain]
    rfl
  · rw [plain, grouped]
    exact Node.noConfusion

end SigilScript
