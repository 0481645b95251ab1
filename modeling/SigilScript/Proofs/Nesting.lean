import SigilScript.Nesting

/-! # Properly nested lexemes

A list of lexemes is properly nested when every opener in it is closed by the closer of its own
kind, inside out. Searches of both depths pass over such a list: a partner is never found inside
it, and from inside a group neither is a place at depth zero.
-/

namespace SigilScript

/-- Every opener is closed by the closer of its kind, and no closer is left over. -/
inductive Nested : List Lexeme → Prop
  | nil : Nested []
  | plain {lexeme : Lexeme} {rest : List Lexeme} :
      lexeme.category.isOpener = false → lexeme.category.isCloser = false →
        Nested rest → Nested (lexeme :: rest)
  | group {opener closer : Lexeme} {inner rest : List Lexeme} :
      opener.category.closer? = some closer.category → Nested inner → Nested rest →
        Nested (opener :: (inner ++ closer :: rest))

/-- A group behind a list, and its closer behind the rest. -/
theorem append_group (front inner : List Lexeme) (opener closer : Lexeme) :
    front ++ opener :: (inner ++ [closer]) = (front ++ opener :: inner) ++ [closer] := by
  rw [List.append_assoc, List.cons_append]

namespace Category

theorem isOpener_of_closer? {opener closer : Category} (partner : opener.closer? = some closer) :
    opener.isOpener = true := by
  rw [← closer?_isSome, partner]
  rfl

theorem isCloser_of_closer? {opener closer : Category} (partner : opener.closer? = some closer) :
    closer.isCloser = true := by
  cases opener <;> simp only [closer?, Option.some.injEq, reduceCtorEq] at partner <;>
    subst partner <;> rfl

theorem isOpener_eq_false_of_isCloser {category : Category} (closes : category.isCloser = true) :
    category.isOpener = false := by
  cases category <;> first | rfl | simp [isCloser] at closes

theorem ne_of_closer? {opener closer : Category} (partner : opener.closer? = some closer) :
    closer ≠ opener := by
  rintro rfl
  have opens := isOpener_of_closer? partner
  rw [isOpener_eq_false_of_isCloser (isCloser_of_closer? partner)] at opens
  contradiction

theorem closer?_inj {opener opener' closer : Category} (partner : opener.closer? = some closer)
    (partner' : opener'.closer? = some closer) : opener = opener' := by
  cases opener <;> simp only [closer?, Option.some.injEq, reduceCtorEq] at partner <;>
    subst partner <;> cases opener' <;> first | rfl | simp [closer?] at partner'

theorem depthAfter?_opener {category : Category} (opens : category.isOpener = true) (depth : Nat) :
    category.depthAfter? depth = some (depth + 1) := by
  simp only [depthAfter?, opens, ↓reduceIte]

theorem depthAfter?_closer {category : Category} (closes : category.isCloser = true)
    (depth : Nat) : category.depthAfter? (depth + 1) = some depth := by
  simp [depthAfter?, closes, isOpener_eq_false_of_isCloser closes]

theorem depthAfter?_plain {category : Category} (opens : category.isOpener = false)
    (closes : category.isCloser = false) (depth : Nat) :
    category.depthAfter? depth = some depth := by
  simp [depthAfter?, opens, closes]

end Category

namespace Nested

theorem append {first second : List Lexeme} (left : Nested first) (right : Nested second) :
    Nested (first ++ second) := by
  induction left with
  | nil => exact right
  | plain opens closes _ ih => exact .plain opens closes ih
  | @group opener closer inner rest partner inside _ _ ih =>
    rw [List.cons_append, List.append_assoc, List.cons_append]
    exact .group partner inside ih

/-- One group is properly nested when its inside is. -/
theorem single {opener closer : Lexeme} {inner : List Lexeme}
    (partner : opener.category.closer? = some closer.category) (inside : Nested inner) :
    Nested (opener :: (inner ++ [closer])) :=
  .group partner inside .nil

/-- Lexemes that open and close nothing are properly nested. -/
theorem flat {lexemes : List Lexeme} (plain : ∀ lexeme ∈ lexemes,
    lexeme.category.isOpener = false ∧ lexeme.category.isCloser = false) : Nested lexemes := by
  induction lexemes with
  | nil => exact .nil
  | cons lexeme rest ih =>
    obtain ⟨first, further⟩ := List.forall_mem_cons.mp plain
    exact .plain first.1 first.2 (ih further)

/-- Without a last lexeme that closes nothing, what is properly nested stays so. -/
theorem init {lexemes before : List Lexeme} {last : Lexeme} (nested : Nested lexemes)
    (split : lexemes = before ++ [last]) (closes : last.category.isCloser = false) :
    Nested before := by
  induction nested generalizing before with
  | nil => simp at split
  | @plain lexeme rest opens notCloser nested ih =>
    cases before with
    | nil => exact .nil
    | cons first before =>
      obtain ⟨rfl, same⟩ := List.cons.inj split
      exact .plain opens notCloser (ih same)
  | @group opener closer inner rest partner inside _ _ ih =>
    rcases List.eq_nil_or_concat rest with rfl | ⟨rest, final, rfl⟩
    · have same : closer = last := by
        have both := congrArg List.getLast? split
        rw [← List.cons_append, List.getLast?_concat, List.getLast?_concat] at both
        exact Option.some.inj both
      rw [← same, Category.isCloser_of_closer? partner] at closes
      contradiction
    · have same : (opener :: (inner ++ closer :: rest)) ++ [final] = before ++ [last] := by
        rw [← split, List.concat_eq_append]
        simp only [List.cons_append, List.append_assoc]
      obtain ⟨rfl, ends⟩ := List.append_inj' same rfl
      obtain rfl := (List.cons.inj ends).1
      exact .group partner inside (ih (List.concat_eq_append ..))

/-- Every opener of a properly nested list has its partner. -/
theorem partner {lexemes front rest : List Lexeme} {opener : Lexeme} (nested : Nested lexemes)
    (split : lexemes = front ++ opener :: rest) (opens : opener.category.isOpener = true) :
    ∃ (inner : List Lexeme) (closer : Lexeme) (after : List Lexeme),
      rest = inner ++ closer :: after ∧ Nested inner ∧
        opener.category.closer? = some closer.category := by
  induction nested generalizing front rest with
  | nil => simp at split
  | plain noOpener _ _ ih =>
    cases front with
    | nil =>
      obtain ⟨rfl, -⟩ := List.cons.inj split
      rw [noOpener] at opens
      contradiction
    | cons first front => exact ih (List.cons.inj split).2
  | @group first closer inner behind pair inside _ ihInner ihBehind =>
    cases front with
    | nil =>
      obtain ⟨rfl, rfl⟩ := List.cons.inj split
      exact ⟨inner, closer, behind, rfl, inside, pair⟩
    | cons other front =>
      rcases List.append_eq_append_iff.mp (List.cons.inj split).2 with
        ⟨between, rfl, same⟩ | ⟨between, rfl, same⟩
      · rcases between with _ | ⟨last, between⟩
        · obtain ⟨rfl, -⟩ := List.cons.inj same
          rw [Category.isOpener_eq_false_of_isCloser (Category.isCloser_of_closer? pair)] at opens
          contradiction
        · exact ihBehind (List.cons.inj same).2
      · rcases between with _ | ⟨last, between⟩
        · obtain ⟨rfl, -⟩ := List.cons.inj same
          rw [Category.isOpener_eq_false_of_isCloser (Category.isCloser_of_closer? pair)] at opens
          contradiction
        · obtain ⟨rfl, rfl⟩ := List.cons.inj same
          obtain ⟨inner', closer', after, rfl, inside', pair'⟩ := ihInner rfl
          exact ⟨inner', closer', after ++ closer :: behind,
            List.append_assoc inner' (closer' :: after) (closer :: behind), inside', pair'⟩

end Nested

/-- The same cut with more lexemes in front. -/
def Cut.pushAll (lexemes : List Lexeme) (cut : Cut) : Cut :=
  { cut with before := lexemes ++ cut.before }

@[simp] theorem Cut.found_push (lexeme : Lexeme) (cut : Cut) :
    (cut.push lexeme).found = cut.found := rfl

@[simp] theorem Cut.pushAll_nil (cut : Cut) : cut.pushAll [] = cut := rfl

@[simp] theorem Cut.map_pushAll_nil (cut : Option Cut) : cut.map (Cut.pushAll []) = cut :=
  congrFun Option.map_id cut

@[simp] theorem Cut.push_comp_pushAll (lexeme : Lexeme) (lexemes : List Lexeme) :
    Cut.push lexeme ∘ Cut.pushAll lexemes = Cut.pushAll (lexeme :: lexemes) := rfl

@[simp] theorem Cut.pushAll_comp_pushAll (first second : List Lexeme) :
    Cut.pushAll first ∘ Cut.pushAll second = Cut.pushAll (first ++ second) := by
  funext cut
  simp only [Function.comp_apply, pushAll, List.append_assoc]

@[simp] theorem Cut.pushAll_comp_push (lexemes : List Lexeme) (lexeme : Lexeme) :
    Cut.pushAll lexemes ∘ Cut.push lexeme = Cut.pushAll (lexemes ++ [lexeme]) := by
  funext cut
  simp only [Function.comp_apply, pushAll, push, List.append_assoc, List.singleton_append]

/-! ## Searches

A search goes through a list with a state of its own, such as a depth. At each lexeme it cuts the list
there, fails, or goes on behind it, whatever stands behind. So where a list is cut does not rest on
what stands behind the cut.
-/

/-- A search that cuts at nothing but what is wanted. -/
structure IsSearch {σ : Type} (wanted : Lexeme → Prop) (search : σ → List Lexeme → Option Cut) :
    Prop where
  nil (state : σ) : search state [] = none
  cons (state : σ) (lexeme : Lexeme) :
    (wanted lexeme ∧ ∀ rest, search state (lexeme :: rest) = some ⟨[], lexeme, rest⟩) ∨
    (∀ rest, search state (lexeme :: rest) = none) ∨
    ∃ further : σ, ∀ rest,
      search state (lexeme :: rest) = (search further rest).map (Cut.push lexeme)

namespace IsSearch

variable {σ : Type} {wanted : Lexeme → Prop} {search : σ → List Lexeme → Option Cut}
  {lexemes behind : List Lexeme} {cut : Cut}

theorem spec (isSearch : IsSearch wanted search) (state : σ)
    (found : search state lexemes = some cut) :
    cut.whole = lexemes ∧ wanted cut.found ∧
      ∀ after, search state (cut.before ++ cut.found :: after) = some { cut with after } := by
  induction lexemes generalizing state cut with
  | nil =>
    rw [isSearch.nil] at found
    contradiction
  | cons lexeme rest ih =>
    rcases isSearch.cons state lexeme with ⟨isWanted, here⟩ | fails | ⟨further, onward⟩
    · rw [here] at found
      obtain rfl := Option.some.inj found
      exact ⟨rfl, isWanted, here⟩
    · rw [fails] at found
      contradiction
    · rw [onward] at found
      obtain ⟨inner, reached, rfl⟩ := Option.map_eq_some_iff.mp found
      obtain ⟨whole, isWanted, exchange⟩ := ih further reached
      refine ⟨by rw [Cut.whole_push, whole], isWanted, fun after => ?_⟩
      have same := onward (inner.before ++ inner.found :: after)
      rw [exchange] at same
      exact same

theorem whole (isSearch : IsSearch wanted search) (state : σ)
    (found : search state lexemes = some cut) : cut.whole = lexemes :=
  (isSearch.spec state found).1

theorem found (isSearch : IsSearch wanted search) (state : σ)
    (found : search state lexemes = some cut) : wanted cut.found :=
  (isSearch.spec state found).2.1

/-- A cut list is cut at the same place with something else behind the cut. -/
theorem exchange (isSearch : IsSearch wanted search) (state : σ)
    (found : search state lexemes = some cut) (after : List Lexeme) :
    search state (cut.before ++ cut.found :: after) = some { cut with after } :=
  (isSearch.spec state found).2.2 after

/-- With more behind it a list is cut at the same place. -/
theorem append (isSearch : IsSearch wanted search) (state : σ)
    (found : search state lexemes = some cut) (behind : List Lexeme) :
    search state (lexemes ++ behind) = some { cut with after := cut.after ++ behind } := by
  have same := isSearch.exchange state found (cut.after ++ behind)
  rw [← isSearch.whole state found, Cut.whole, List.append_assoc, List.cons_append]
  exact same

/-- A list is cut without what stands behind it, if that is left over. -/
theorem front (isSearch : IsSearch wanted search) (state : σ)
    (found : search state (lexemes ++ behind) = some cut) (halts : behind <:+ cut.after) :
    ∃ after, cut.after = after ++ behind ∧ search state lexemes = some { cut with after } := by
  obtain ⟨after, same⟩ := halts
  have whole := isSearch.whole state found
  rw [Cut.whole, ← same, ← List.cons_append, ← List.append_assoc] at whole
  have inner := isSearch.exchange state found after
  rw [List.append_cancel_right whole] at inner
  exact ⟨after, same.symm, inner⟩

end IsSearch

theorem isSearch_cutAtPartner? (opener closer : Category) :
    IsSearch (fun lexeme => lexeme.category = closer) (cutAtPartner? opener closer) where
  nil _ := rfl
  cons depth lexeme := by
    by_cases opens : lexeme.category = opener
    · exact .inr (.inr ⟨depth + 1, fun rest => by rw [cutAtPartner?, if_pos opens]⟩)
    by_cases closes : lexeme.category = closer
    · by_cases last : depth ≤ 1
      · refine .inl ⟨closes, fun rest => ?_⟩
        rw [cutAtPartner?, if_neg opens, if_pos closes, if_pos last]
      · refine .inr (.inr ⟨depth - 1, fun rest => ?_⟩)
        rw [cutAtPartner?, if_neg opens, if_pos closes, if_neg last]
    · refine .inr (.inr ⟨depth, fun rest => ?_⟩)
      rw [cutAtPartner?, if_neg opens, if_neg closes]

theorem isSearch_cutAtTopLevel? (wanted : Lexeme → Bool) :
    IsSearch (fun lexeme => wanted lexeme = true) (cutAtTopLevel? wanted) where
  nil _ := rfl
  cons depth lexeme := by
    by_cases here : depth = 0 ∧ wanted lexeme = true
    · exact .inl ⟨here.2, fun rest => by rw [cutAtTopLevel?, if_pos here]⟩
    rcases within : lexeme.category.depthAfter? depth with _ | inner
    · exact .inr (.inl fun rest => by simp only [cutAtTopLevel?, if_neg here, within])
    · exact .inr (.inr ⟨inner, fun rest => by simp only [cutAtTopLevel?, if_neg here, within]⟩)

/-- The state is the number of colons that belong to other question marks, and the depth. -/
theorem isSearch_cutAtColon? :
    IsSearch (fun lexeme => lexeme.category = .colon)
      fun state : Nat × Nat => cutAtColon? state.1 state.2 where
  nil _ := rfl
  cons state lexeme := by
    obtain ⟨pending, depth⟩ := state
    by_cases question : depth = 0 ∧ lexeme.category = .question
    · rcases within : lexeme.category.depthAfter? depth with _ | inner
      · exact .inr (.inl fun rest => by simp only [cutAtColon?, if_pos question, within])
      · exact .inr (.inr ⟨(pending + 1, inner), fun rest => by
          simp only [cutAtColon?, if_pos question, within]⟩)
    by_cases colon : depth = 0 ∧ lexeme.category = .colon
    · by_cases last : pending = 0
      · exact .inl ⟨colon.2, fun rest => by
          simp only [cutAtColon?, if_neg question, if_pos colon, if_pos last]⟩
      rcases within : lexeme.category.depthAfter? depth with _ | inner
      · exact .inr (.inl fun rest => by
          simp only [cutAtColon?, if_neg question, if_pos colon, if_neg last, within])
      · exact .inr (.inr ⟨(pending - 1, inner), fun rest => by
          simp only [cutAtColon?, if_neg question, if_pos colon, if_neg last, within]⟩)
    rcases within : lexeme.category.depthAfter? depth with _ | inner
    · exact .inr (.inl fun rest => by
        simp only [cutAtColon?, if_neg question, if_neg colon, within])
    · exact .inr (.inr ⟨(pending, inner), fun rest => by
        simp only [cutAtColon?, if_neg question, if_neg colon, within]⟩)

section Found

variable {opener closer : Category} {wanted : Lexeme → Bool} {pending depth : Nat}
  {lexemes : List Lexeme} {cut : Cut}

theorem cutAtPartner?_whole (found : cutAtPartner? opener closer depth lexemes = some cut) :
    cut.whole = lexemes :=
  (isSearch_cutAtPartner? opener closer).whole depth found

theorem cutAtPartner?_found (found : cutAtPartner? opener closer depth lexemes = some cut) :
    cut.found.category = closer :=
  (isSearch_cutAtPartner? opener closer).found depth found

theorem cutAtTopLevel?_whole (found : cutAtTopLevel? wanted depth lexemes = some cut) :
    cut.whole = lexemes :=
  (isSearch_cutAtTopLevel? wanted).whole depth found

theorem cutAtTopLevel?_found (found : cutAtTopLevel? wanted depth lexemes = some cut) :
    wanted cut.found = true :=
  (isSearch_cutAtTopLevel? wanted).found depth found

theorem cutAtColon?_whole (found : cutAtColon? pending depth lexemes = some cut) :
    cut.whole = lexemes :=
  isSearch_cutAtColon?.whole (pending, depth) found

theorem cutAtColon?_found (found : cutAtColon? pending depth lexemes = some cut) :
    cut.found.category = .colon :=
  isSearch_cutAtColon?.found (pending, depth) found

end Found

/-! ## Searches for a partner -/

/-- Inside a group, the search for its closer passes over a properly nested list. -/
theorem cutAtPartner?_nested {opener closer : Category} (partner : opener.closer? = some closer)
    {word : List Lexeme} (nested : Nested word) {depth : Nat} (inside : 0 < depth)
    (rest : List Lexeme) :
    cutAtPartner? opener closer depth (word ++ rest) =
      (cutAtPartner? opener closer depth rest).map (Cut.pushAll word) := by
  induction nested generalizing depth rest with
  | nil => simp
  | @plain lexeme word opens closes _ ih =>
    have notOpener : lexeme.category ≠ opener := by
      rintro rfl
      simp [Category.isOpener_of_closer? partner] at opens
    have notCloser : lexeme.category ≠ closer := by
      rintro rfl
      simp [Category.isCloser_of_closer? partner] at closes
    simp only [List.cons_append, cutAtPartner?, notOpener, notCloser, ↓reduceIte, ih inside,
      Option.map_map, Cut.push_comp_pushAll]
  | @group first last inner word same _ _ ihInner ihWord =>
    have firstNotCloser : first.category ≠ closer := by
      rintro rfl
      have opens := Category.isOpener_of_closer? same
      simp [Category.isOpener_eq_false_of_isCloser (Category.isCloser_of_closer? partner)] at opens
    by_cases kind : first.category = opener
    · have lastCloser : last.category = closer :=
        Option.some.inj (same.symm.trans (kind ▸ partner))
      have distinct : closer ≠ opener := Category.ne_of_closer? partner
      have deep : ¬ depth + 1 ≤ 1 := by omega
      simp only [List.cons_append, List.append_assoc, cutAtPartner?, kind, ↓reduceIte,
        ihInner (Nat.add_pos_right depth Nat.one_pos), distinct, lastCloser, deep,
        Nat.add_sub_cancel, ihWord inside, Option.map_map, Cut.push_comp_pushAll,
        Cut.pushAll_comp_pushAll]
    · have lastNotOpener : last.category ≠ opener := by
        rintro rfl
        have opens := Category.isOpener_of_closer? partner
        simp [Category.isOpener_eq_false_of_isCloser (Category.isCloser_of_closer? same)] at opens
      have lastNotCloser : last.category ≠ closer := by
        rintro rfl
        exact kind (Category.closer?_inj same partner)
      simp only [List.cons_append, List.append_assoc, cutAtPartner?, kind, firstNotCloser,
        ↓reduceIte, ihInner inside, lastNotOpener, lastNotCloser, ihWord inside, Option.map_map,
        Cut.push_comp_pushAll, Cut.pushAll_comp_pushAll]

/-! ## Groups -/

section Groups

variable {opener : Lexeme} {rest inner after : List Lexeme} {fault : SyntaxFault}

/-- What opens nothing takes nothing. -/
theorem takeGroup_of_none (plain : opener.category.closer? = none) (rest : List Lexeme) :
    takeGroup opener rest = (.error ⟨.unexpected opener.text, opener.position⟩, rest) := by
  simp only [takeGroup, plain]

theorem takeGroup_of_cut {closer : Category} {cut : Cut}
    (partner : opener.category.closer? = some closer)
    (found : cutAtPartner? opener.category closer 1 rest = some cut) :
    takeGroup opener rest = (.ok cut.before, cut.after) := by
  simp only [takeGroup, partner, found]

/-- A group ends where the partner of its opener is found. -/
theorem takeGroup_cut (taken : takeGroup opener rest = (.ok inner, after)) :
    ∃ (closer : Category) (found : Lexeme), opener.category.closer? = some closer ∧
      cutAtPartner? opener.category closer 1 rest = some ⟨inner, found, after⟩ := by
  rcases partner : opener.category.closer? with _ | closer
  · rw [takeGroup_of_none partner] at taken
    simp at taken
  · rcases found : cutAtPartner? opener.category closer 1 rest with _ | cut
    · simp [takeGroup, partner, found] at taken
    · rw [takeGroup_of_cut partner found] at taken
      obtain ⟨same, rfl⟩ := Prod.mk.inj taken
      obtain rfl := Except.ok.inj same
      exact ⟨closer, cut.found, rfl, found⟩

/-- The fault of a group is at its opener, which takes everything if its partner is missing. -/
theorem takeGroup_uncut (failed : takeGroup opener rest = (.error fault, after)) :
    fault.position = opener.position ∧
      (opener.category.closer? = none ∧ after = rest ∨
        ∃ closer, opener.category.closer? = some closer ∧
          cutAtPartner? opener.category closer 1 rest = none ∧ after = []) := by
  rcases partner : opener.category.closer? with _ | closer
  · rw [takeGroup_of_none partner] at failed
    obtain ⟨same, rfl⟩ := Prod.mk.inj failed
    rw [← Except.error.inj same]
    exact ⟨rfl, .inl ⟨rfl, rfl⟩⟩
  · rcases found : cutAtPartner? opener.category closer 1 rest with _ | cut
    · simp only [takeGroup, partner, found] at failed
      obtain ⟨same, rfl⟩ := Prod.mk.inj failed
      rw [← Except.error.inj same]
      exact ⟨rfl, .inr ⟨closer, rfl, found, rfl⟩⟩
    · rw [takeGroup_of_cut partner found] at failed
      simp at failed

/-- The inside of a group that is properly nested is what the group is taken for. -/
theorem takeGroup_nested {closer : Lexeme}
    (partner : opener.category.closer? = some closer.category) (nested : Nested inner)
    (rest : List Lexeme) : takeGroup opener (inner ++ closer :: rest) = (.ok inner, rest) := by
  simp [takeGroup, partner, cutAtPartner?_nested partner nested Nat.one_pos, cutAtPartner?,
    Category.ne_of_closer? partner, Cut.pushAll]

/-- The inside of a group and what follows it stand behind its opener in this order. -/
theorem takeGroup_ok (taken : takeGroup opener rest = (.ok inner, after)) :
    ∃ closer : Lexeme, opener.category.closer? = some closer.category ∧
      rest = inner ++ closer :: after := by
  obtain ⟨closer, found, partner, cut⟩ := takeGroup_cut taken
  obtain rfl : found.category = closer := cutAtPartner?_found cut
  exact ⟨found, partner, (cutAtPartner?_whole cut).symm⟩

theorem takeGroup_suffix (opener : Lexeme) (rest : List Lexeme) :
    (takeGroup opener rest).2 <:+ rest := by
  rcases group : takeGroup opener rest with ⟨_ | inner, after⟩
  · rcases (takeGroup_uncut group).2 with ⟨-, rfl⟩ | ⟨-, -, -, rfl⟩
    · exact List.suffix_refl _
    · exact List.nil_suffix
  · obtain ⟨closer, -, rfl⟩ := takeGroup_ok group
    exact (List.suffix_cons closer after).trans (List.suffix_append inner _)

end Groups

/-! ## Searches at depth zero -/

/-- Inside a group, the search for a place at depth zero passes over a properly nested list. -/
theorem cutAtTopLevel?_nested (wanted : Lexeme → Bool) {word : List Lexeme} (nested : Nested word)
    (depth : Nat) (rest : List Lexeme) :
    cutAtTopLevel? wanted (depth + 1) (word ++ rest) =
      (cutAtTopLevel? wanted (depth + 1) rest).map (Cut.pushAll word) := by
  induction nested generalizing depth rest with
  | nil => simp
  | plain opens closes _ ih =>
    simp [cutAtTopLevel?, Category.depthAfter?_plain opens closes, ih]
  | group partner _ _ ihInner ihWord =>
    simp [cutAtTopLevel?, Category.depthAfter?_opener (Category.isOpener_of_closer? partner),
      Category.depthAfter?_closer (Category.isCloser_of_closer? partner), ihInner, ihWord]

/-- The search for a place at depth zero passes over a group whose opener is not the place. -/
theorem cutAtTopLevel?_group (wanted : Lexeme → Bool) {opener closer : Lexeme}
    (partner : opener.category.closer? = some closer.category) (unwanted : wanted opener = false)
    {inner : List Lexeme} (nested : Nested inner) (depth : Nat) (rest : List Lexeme) :
    cutAtTopLevel? wanted depth (opener :: (inner ++ closer :: rest)) =
      (cutAtTopLevel? wanted depth rest).map (Cut.pushAll (opener :: (inner ++ [closer]))) := by
  simp [cutAtTopLevel?, unwanted, cutAtTopLevel?_nested wanted nested,
    Category.depthAfter?_opener (Category.isOpener_of_closer? partner),
    Category.depthAfter?_closer (Category.isCloser_of_closer? partner)]

/-- A search at depth zero that finds nothing in a properly nested list passes over it. -/
theorem cutAtTopLevel?_behind (wanted : Lexeme → Bool) {word : List Lexeme} (nested : Nested word)
    (nowhere : cutAtTopLevel? wanted 0 word = none) (rest : List Lexeme) :
    cutAtTopLevel? wanted 0 (word ++ rest) =
      (cutAtTopLevel? wanted 0 rest).map (Cut.pushAll word) := by
  induction nested generalizing rest with
  | nil => simp
  | @plain lexeme word opens closes _ ih =>
    simp only [cutAtTopLevel?, Category.depthAfter?_plain opens closes] at nowhere
    split at nowhere
    · contradiction
    · next unwanted =>
      simp only [List.cons_append, cutAtTopLevel?, unwanted, ↓reduceIte,
        Category.depthAfter?_plain opens closes, ih (Option.map_eq_none_iff.mp nowhere),
        Option.map_map, Cut.push_comp_pushAll]
  | @group opener closer inner word partner nested _ _ ih =>
    have unwanted : wanted opener = false := by
      apply Bool.eq_false_iff.mpr
      intro found
      simp [cutAtTopLevel?, found] at nowhere
    rw [cutAtTopLevel?_group wanted partner unwanted nested] at nowhere
    rw [List.cons_append, List.append_assoc, List.cons_append,
      cutAtTopLevel?_group wanted partner unwanted nested,
      ih (Option.map_eq_none_iff.mp nowhere), Option.map_map, Cut.pushAll_comp_pushAll]
    simp

/-- Nothing is found where nothing is wanted. -/
theorem cutAtTopLevel?_eq_none {wanted : Lexeme → Bool} {lexemes : List Lexeme}
    (unwanted : ∀ lexeme ∈ lexemes, wanted lexeme = false) (depth : Nat) :
    cutAtTopLevel? wanted depth lexemes = none := by
  induction lexemes generalizing depth with
  | nil => rfl
  | cons lexeme rest ih =>
    have later := ih fun other member => unwanted other (List.mem_cons_of_mem _ member)
    simp only [cutAtTopLevel?, unwanted lexeme (List.mem_cons_self ..), Bool.false_eq_true,
      and_false, ↓reduceIte]
    split
    · rfl
    · rw [later, Option.map_none]

/-- Segments are made by one cut after the other, each at depth zero. -/
theorem segmentsFrom_eq {separator : Category} (opens : separator.isOpener = false)
    (closes : separator.isCloser = false) (depth : Nat) (lexemes : List Lexeme) :
    segmentsFrom separator depth lexemes =
      match cutAtTopLevel? (fun lexeme => lexeme.category = separator) depth lexemes with
      | none => [⟨lexemes, none⟩]
      | some cut => ⟨cut.before, some cut.found⟩ :: segmentsFrom separator 0 cut.after := by
  induction lexemes generalizing depth with
  | nil => rfl
  | cons lexeme rest ih =>
    simp only [segmentsFrom, cutAtTopLevel?, decide_eq_true_eq]
    split
    · next separates =>
      obtain ⟨rfl, rfl⟩ := separates
      simp only [Category.depthAfter?_plain opens closes]
    · rcases lexeme.category.depthAfter? depth with _ | inner
      · rfl
      · simp only [ih inner]
        rcases cutAtTopLevel? (fun lexeme => decide (lexeme.category = separator)) inner rest with
          _ | cut <;> rfl

theorem hasTopLevel_eq_false_iff {lexemes : List Lexeme} {category : Category} :
    hasTopLevel lexemes category = false ↔
      cutAtTopLevel? (fun lexeme => lexeme.category = category) 0 lexemes = none := by
  rw [hasTopLevel, Option.isSome_eq_false_iff, Option.isNone_iff_eq_none]

/-- A list without a separator at depth zero is one segment. -/
theorem segmentsFrom_alone {separator : Category} (opens : separator.isOpener = false)
    (closes : separator.isCloser = false) {lexemes : List Lexeme}
    (unseparated : hasTopLevel lexemes separator = false) :
    segmentsFrom separator 0 lexemes = [⟨lexemes, none⟩] := by
  rw [segmentsFrom_eq opens closes, hasTopLevel_eq_false_iff.mp unseparated]

/-- A properly nested list without a separator at depth zero is the segment in front of the separator
behind it. -/
theorem segmentsFrom_behind {separator : Category} (opens : separator.isOpener = false)
    (closes : separator.isCloser = false) {segment : List Lexeme} (nested : Nested segment)
    (unseparated : hasTopLevel segment separator = false) {stop : Lexeme}
    (separates : stop.category = separator) (rest : List Lexeme) :
    segmentsFrom separator 0 (segment ++ stop :: rest) =
      ⟨segment, some stop⟩ :: segmentsFrom separator 0 rest := by
  have nowhere := hasTopLevel_eq_false_iff.mp unseparated
  rw [segmentsFrom_eq opens closes, cutAtTopLevel?_behind _ nested nowhere]
  simp [cutAtTopLevel?, separates, Cut.pushAll]

/-- Inside a group, the search for the colon of a question mark passes over a properly nested
list. -/
theorem cutAtColon?_nested {word : List Lexeme} (nested : Nested word) (pending depth : Nat)
    (rest : List Lexeme) :
    cutAtColon? pending (depth + 1) (word ++ rest) =
      (cutAtColon? pending (depth + 1) rest).map (Cut.pushAll word) := by
  induction nested generalizing depth rest with
  | nil => simp
  | plain opens closes _ ih =>
    simp [cutAtColon?, Category.depthAfter?_plain opens closes, ih]
  | group partner _ _ ihInner ihWord =>
    simp [cutAtColon?, Category.depthAfter?_opener (Category.isOpener_of_closer? partner),
      Category.depthAfter?_closer (Category.isCloser_of_closer? partner), ihInner, ihWord]

/-- The search for the colon of a question mark passes over a group. -/
theorem cutAtColon?_group {opener closer : Lexeme}
    (partner : opener.category.closer? = some closer.category) {inner : List Lexeme}
    (nested : Nested inner) (pending depth : Nat) (rest : List Lexeme) :
    cutAtColon? pending depth (opener :: (inner ++ closer :: rest)) =
      (cutAtColon? pending depth rest).map (Cut.pushAll (opener :: (inner ++ [closer]))) := by
  have opens := Category.isOpener_of_closer? partner
  have notQuestion : opener.category ≠ .question := by
    intro same
    simp [same, Category.isOpener] at opens
  have notColon : opener.category ≠ .colon := by
    intro same
    simp [same, Category.isOpener] at opens
  simp [cutAtColon?, notQuestion, notColon, cutAtColon?_nested nested,
    Category.depthAfter?_opener opens,
    Category.depthAfter?_closer (Category.isCloser_of_closer? partner)]

end SigilScript
