import Mathlib.Order.Bounds.Basic
import SigilScript.Proofs.Indices

/-! # Partners of brackets

The search for a partner counts brackets of one kind alone, and finds the first place where these
balance. A stack of all the brackets that are open tells the three kinds apart. In a properly nested
list both find the same partner: what stands in a group balances in every kind, so it moves neither
the count nor the stack.
-/

namespace SigilScript

variable {opener closer : Category} {depth : Nat} {lexeme : Lexeme} {rest lexemes : List Lexeme}

/-! ## Counting one kind -/

/-- How many lexemes of a list have this role. -/
def countOf (category : Category) (lexemes : List Lexeme) : Nat :=
  lexemes.countP fun lexeme => lexeme.category = category

theorem countOf_cons (category : Category) (lexeme : Lexeme) (rest : List Lexeme) :
    countOf category (lexeme :: rest) =
      countOf category rest + if lexeme.category = category then 1 else 0 := by
  simp [countOf, List.countP_cons]

/-- Whether openers and closers balance from one index of a list to another. -/
def Balanced (opener closer : Category) (lexemes : List Lexeme) (start place : Nat) : Prop :=
  countOf opener (lexemes.extract start (place + 1)) =
    countOf closer (lexemes.extract start (place + 1))

/-- Whether a depth is never brought down to zero by the brackets of a kind in a list. -/
def StaysInside (opener closer : Category) (depth : Nat) (lexemes : List Lexeme) : Prop :=
  ∀ front, front <+: lexemes → countOf closer front < depth + countOf opener front

theorem StaysInside.cons {further : Nat} (inside : 0 < depth)
    (counted : further + (if lexeme.category = closer then 1 else 0) =
      depth + if lexeme.category = opener then 1 else 0)
    (stays : StaysInside opener closer further rest) :
    StaysInside opener closer depth (lexeme :: rest) := by
  intro front begins
  rcases List.prefix_cons_iff.mp begins with rfl | ⟨front, rfl, further⟩
  · exact Nat.add_pos_left inside _
  · have behind := stays front further
    rw [countOf_cons, countOf_cons]
    omega

/-- The search ends at a closer of depth one, and goes on behind any other lexeme at the depth that
this leads to. -/
theorem cutAtPartner?_step (distinct : closer ≠ opener) (inside : 0 < depth) (lexeme : Lexeme)
    (rest : List Lexeme) :
    (lexeme.category = closer ∧ depth = 1 ∧
      cutAtPartner? opener closer depth (lexeme :: rest) = some ⟨[], lexeme, rest⟩) ∨
    ∃ further, 0 < further ∧
      further + (if lexeme.category = closer then 1 else 0) =
        depth + (if lexeme.category = opener then 1 else 0) ∧
      cutAtPartner? opener closer depth (lexeme :: rest) =
        (cutAtPartner? opener closer further rest).map (Cut.push lexeme) := by
  rw [cutAtPartner?]
  by_cases opens : lexeme.category = opener
  · have other : lexeme.category ≠ closer := by
      rw [opens]
      exact distinct.symm
    exact .inr ⟨depth + 1, Nat.succ_pos depth, by rw [if_neg other, if_pos opens], if_pos opens⟩
  · rw [if_neg opens]
    by_cases closes : lexeme.category = closer
    · rw [if_pos closes, if_pos closes, if_neg opens]
      by_cases last : depth ≤ 1
      · exact .inl ⟨closes, by omega, if_pos last⟩
      · exact .inr ⟨depth - 1, by omega, by omega, if_neg last⟩
    · rw [if_neg closes, if_neg closes, if_neg opens]
      exact .inr ⟨depth, inside, rfl, rfl⟩

/-- Behind an opener the search finds the first place that brings the depth down to zero. -/
theorem cutAtPartner?_counts (distinct : closer ≠ opener) (inside : 0 < depth)
    (lexemes : List Lexeme) :
    match cutAtPartner? opener closer depth lexemes with
    | some cut => StaysInside opener closer depth cut.before ∧
        countOf closer (cut.before ++ [cut.found]) =
          depth + countOf opener (cut.before ++ [cut.found])
    | none => StaysInside opener closer depth lexemes := by
  induction lexemes generalizing depth with
  | nil =>
    intro front begins
    obtain rfl := List.prefix_nil.mp begins
    exact inside
  | cons lexeme rest ih =>
    rcases cutAtPartner?_step distinct inside lexeme rest with
      ⟨closes, rfl, found⟩ | ⟨further, positive, counted, goesOn⟩
    · rw [found]
      constructor
      · intro front begins
        obtain rfl := List.prefix_nil.mp begins
        exact inside
      · have other : lexeme.category ≠ opener := closes ▸ distinct
        simp [countOf, closes, distinct]
    · have behind := ih positive
      rw [goesOn]
      cases found : cutAtPartner? opener closer further rest with
      | none =>
        rw [found] at behind
        exact behind.cons inside counted
      | some cut =>
        rw [found] at behind
        obtain ⟨stays, balanced⟩ := behind
        refine ⟨stays.cons inside counted, ?_⟩
        simp only [Cut.push, List.cons_append, countOf_cons]
        omega

/-! ## The first place that balances -/

section

variable {start : Nat} {first : Lexeme}

/-- A stretch that begins with an opener is the opener and a beginning of what follows it. -/
theorem extract_of_opens (opens : lexemes[start]? = some first) {place : Nat}
    (behind : start < place) : lexemes.extract start (place + 1) =
      first :: (lexemes.drop (start + 1)).take (place - start) := by
  obtain ⟨inside, rfl⟩ := List.getElem?_eq_some_iff.mp opens
  have long : place + 1 - start = (place - start) + 1 := by omega
  rw [List.extract_eq_take_drop, long, List.drop_eq_getElem_cons inside, List.take_succ_cons]

/-- Where the depth behind an opener does not come down to zero, nothing balances. -/
theorem not_balanced (opens : lexemes[start]? = some first) (distinct : closer ≠ first.category)
    {place : Nat} (behind : start < place) {front : List Lexeme}
    (stays : StaysInside first.category closer 1 front)
    (begins : (lexemes.drop (start + 1)).take (place - start) <+: front) :
    ¬ Balanced first.category closer lexemes start place := by
  have outweighed := stays _ begins
  rw [Balanced, extract_of_opens opens behind, countOf_cons, countOf_cons, if_pos rfl,
    if_neg distinct.symm]
  omega

/-- The search finds the first place that balances; where there is none the opener is at fault. -/
theorem matchingClose_first (opens : lexemes[start]? = some first)
    (kind : first.category.closer? = some closer) :
    match matchingClose lexemes first.category closer start with
    | .ok close =>
      IsLeast {place | start < place ∧ place < lexemes.length ∧
        Balanced first.category closer lexemes start place} close
    | .error fault => fault = ⟨.unclosed first.text, first.position⟩ ∧
        ∀ place, start < place → ¬ Balanced first.category closer lexemes start place := by
  have distinct := Category.ne_of_closer? kind
  have counts := cutAtPartner?_counts distinct Nat.one_pos (lexemes.drop (start + 1))
  rw [matchingClose, cutAtPartner?_opener opens closer]
  cases found : cutAtPartner? first.category closer 1 (lexemes.drop (start + 1)) with
  | none =>
    rw [found] at counts
    simp only [Option.map_none, opens]
    refine ⟨trivial, ?_⟩
    intro place behind
    exact not_balanced opens distinct behind counts (List.take_prefix _ _)
  | some cut =>
    rw [found] at counts
    obtain ⟨stays, balanced⟩ := counts
    have whole := cutAtPartner?_whole found
    have place := Cut.at_of_whole whole
    simp only [Option.map_some, Cut.push, List.length_cons]
    refine ⟨⟨by omega, ?_, ?_⟩, ?_⟩
    · have within := place.within
      omega
    · have long : start + (cut.before.length + 1) - start = cut.before.length + 1 := by omega
      have group : (lexemes.drop (start + 1)).take (cut.before.length + 1) =
          cut.before ++ [cut.found] := by
        rw [← whole, Cut.whole, ← List.singleton_append, ← List.append_assoc]
        exact List.take_left' (by simp)
      rw [Balanced, extract_of_opens opens (by omega), long, group, countOf_cons, countOf_cons,
        if_pos rfl, if_neg distinct.symm]
      omega
    · rintro other ⟨behind, -, even⟩
      by_contra earlier
      refine not_balanced opens distinct behind stays ?_ even
      rw [← whole, Cut.whole, List.take_append_of_le_length (by omega)]
      exact List.take_prefix _ _

end

/-! ## A stack of open brackets -/

/-- What matching brackets with a stack has come to: how many lexemes were read, the brackets that
are open with their indices, the innermost first, and the indices of the partners found. -/
structure Matching where
  read : Nat
  opened : List (Nat × Category)
  pairs : List (Nat × Nat)

namespace Matching

/-- Nothing was read yet. -/
def start : Matching := ⟨0, [], []⟩

/-- Read one more lexeme: an opener is pushed on the stack, and the closer of the innermost open
bracket pops it. -/
def step (matching : Matching) (lexeme : Lexeme) : Matching :=
  if lexeme.category.isOpener then
    ⟨matching.read + 1, (matching.read, lexeme.category) :: matching.opened, matching.pairs⟩
  else
    match matching.opened with
    | [] => ⟨matching.read + 1, [], matching.pairs⟩
    | (index, opener) :: outer =>
      if opener.closer? = some lexeme.category then
        ⟨matching.read + 1, outer, matching.pairs ++ [(index, matching.read)]⟩
      else ⟨matching.read + 1, (index, opener) :: outer, matching.pairs⟩

/-- Read several lexemes. -/
def run (matching : Matching) (lexemes : List Lexeme) : Matching := lexemes.foldl step matching

end Matching

/-- The index of the partner of the bracket at an index, where all brackets are matched with a
stack. -/
def partner? (lexemes : List Lexeme) (index : Nat) : Option Nat :=
  (Matching.start.run lexemes).pairs.lookup index

namespace Matching

variable {matching : Matching}

theorem run_cons (matching : Matching) (lexeme : Lexeme) (rest : List Lexeme) :
    matching.run (lexeme :: rest) = (matching.step lexeme).run rest := rfl

theorem run_append (matching : Matching) (front rest : List Lexeme) :
    matching.run (front ++ rest) = (matching.run front).run rest := List.foldl_append

/-- What one lexeme does to the stack and to the pairs. -/
theorem step_cases (matching : Matching) (lexeme : Lexeme) :
    (lexeme.category.isOpener = true ∧ matching.step lexeme =
      ⟨matching.read + 1, (matching.read, lexeme.category) :: matching.opened, matching.pairs⟩) ∨
    (∃ index opener outer, matching.opened = (index, opener) :: outer ∧
      opener.closer? = some lexeme.category ∧ matching.step lexeme =
        ⟨matching.read + 1, outer, matching.pairs ++ [(index, matching.read)]⟩) ∨
    matching.step lexeme = ⟨matching.read + 1, matching.opened, matching.pairs⟩ := by
  rw [step]
  split
  · next opens => exact .inl ⟨opens, rfl⟩
  · split
    · next empty => exact .inr (.inr (by rw [empty]))
    · next index opener outer top =>
      split
      · next closes => exact .inr (.inl ⟨index, opener, outer, top, closes, rfl⟩)
      · exact .inr (.inr (by rw [top]))

theorem step_opener (matching : Matching) (opens : lexeme.category.isOpener = true) :
    matching.step lexeme =
      ⟨matching.read + 1, (matching.read, lexeme.category) :: matching.opened, matching.pairs⟩ :=
  if_pos opens

theorem step_plain (matching : Matching) (opens : lexeme.category.isOpener = false)
    (closes : lexeme.category.isCloser = false) :
    matching.step lexeme = ⟨matching.read + 1, matching.opened, matching.pairs⟩ := by
  rcases matching.step_cases lexeme with ⟨isOpener, -⟩ | ⟨_, _, _, -, kind, -⟩ | same
  · rw [opens] at isOpener
    contradiction
  · rw [Category.isCloser_of_closer? kind] at closes
    contradiction
  · exact same

theorem step_closer {index : Nat} {outer : List (Nat × Category)}
    (kind : opener.closer? = some lexeme.category) (read : Nat) (pairs : List (Nat × Nat)) :
    step ⟨read, (index, opener) :: outer, pairs⟩ lexeme =
      ⟨read + 1, outer, pairs ++ [(index, read)]⟩ := by
  have closes := Category.isOpener_eq_false_of_isCloser (Category.isCloser_of_closer? kind)
  simp [step, closes, kind]

/-- Whether a list leaves the stack as it was, and the pairs found in it stand among its indices. -/
def Settles (word : List Lexeme) : Prop :=
  ∀ matching : Matching, ∃ pairs,
    matching.run word = ⟨matching.read + word.length, matching.opened, matching.pairs ++ pairs⟩ ∧
      ∀ pair ∈ pairs, matching.read ≤ pair.1

/-- A bracket around what leaves the stack as it was is popped by its own closer. -/
theorem run_group {first last : Lexeme} {inner : List Lexeme}
    (kind : first.category.closer? = some last.category) (settles : Settles inner)
    (matching : Matching) (rest : List Lexeme) :
    ∃ held, matching.run (first :: (inner ++ last :: rest)) =
        run ⟨matching.read + 1 + inner.length + 1, matching.opened,
          matching.pairs ++ held ++ [(matching.read, matching.read + 1 + inner.length)]⟩ rest ∧
      ∀ pair ∈ held, matching.read < pair.1 := by
  have opens := Category.isOpener_of_closer? kind
  obtain ⟨held, inside, bounds⟩ := settles (matching.step first)
  rw [step_opener matching opens] at inside bounds
  refine ⟨held, ?_, bounds⟩
  rw [run_cons, run_append, run_cons, step_opener matching opens, inside, step_closer kind]

/-- A properly nested list leaves the stack as it was. -/
theorem settles_of_nested {word : List Lexeme} (nested : Nested word) : Settles word := by
  induction nested with
  | nil =>
    intro matching
    exact ⟨[], by rw [List.append_nil]; rfl, List.forall_mem_nil _⟩
  | @plain lexeme word opens closes _ ih =>
    intro matching
    obtain ⟨pairs, same, bounds⟩ := ih (matching.step lexeme)
    rw [step_plain matching opens closes] at same bounds
    refine ⟨pairs, ?_, fun pair member => Nat.le_of_succ_le (bounds pair member)⟩
    rw [run_cons, step_plain matching opens closes, same, List.length_cons, Nat.add_right_comm,
      Nat.add_assoc]
  | @group first last inner word kind _ _ ihInner ihWord =>
    intro matching
    obtain ⟨held, group, heldBounds⟩ := run_group kind ihInner matching word
    obtain ⟨later, behind, laterBounds⟩ := ihWord
      ⟨matching.read + 1 + inner.length + 1, matching.opened,
        matching.pairs ++ held ++ [(matching.read, matching.read + 1 + inner.length)]⟩
    refine ⟨held ++ (matching.read, matching.read + 1 + inner.length) :: later, ?_, ?_⟩
    · rw [group, behind]
      simp only [List.length_cons, List.length_append, mk.injEq, List.append_assoc,
        List.singleton_append, and_true]
      omega
    · intro pair member
      rcases List.mem_append.mp member with member | member
      · exact Nat.le_of_succ_le (heldBounds pair member)
      · rcases List.mem_cons.mp member with rfl | member
        · exact Nat.le_refl _
        · have bound : matching.read + 1 + inner.length + 1 ≤ pair.1 := laterBounds pair member
          omega

/-- Pairs are never taken back. -/
theorem run_pairs (matching : Matching) (lexemes : List Lexeme) :
    ∃ more, (matching.run lexemes).pairs = matching.pairs ++ more := by
  induction lexemes generalizing matching with
  | nil => exact ⟨[], (List.append_nil _).symm⟩
  | cons lexeme rest ih =>
    obtain ⟨more, same⟩ := ih (matching.step lexeme)
    rw [run_cons, same]
    rcases matching.step_cases lexeme with
      ⟨-, stepped⟩ | ⟨index, opener, outer, -, -, stepped⟩ | stepped
    · exact ⟨more, by rw [stepped]⟩
    · exact ⟨(index, matching.read) :: more, by rw [stepped, List.append_assoc]; rfl⟩
    · exact ⟨more, by rw [stepped]⟩

/-- All brackets that are open, and all openers of pairs, stand among what was read. -/
structure Bounded (matching : Matching) : Prop where
  opened : ∀ entry ∈ matching.opened, entry.1 < matching.read
  pairs : ∀ pair ∈ matching.pairs, pair.1 < matching.read

theorem Bounded.step (bounded : matching.Bounded) (lexeme : Lexeme) :
    (matching.step lexeme).Bounded := by
  have opened : ∀ entry ∈ matching.opened, entry.1 < matching.read + 1 :=
    fun entry member => Nat.lt_succ_of_lt (bounded.opened entry member)
  have pairs : ∀ pair ∈ matching.pairs, pair.1 < matching.read + 1 :=
    fun pair member => Nat.lt_succ_of_lt (bounded.pairs pair member)
  rcases matching.step_cases lexeme with
    ⟨-, stepped⟩ | ⟨index, opener, outer, top, -, stepped⟩ | stepped
  · rw [stepped]
    exact ⟨List.forall_mem_cons.mpr ⟨Nat.lt_succ_self _, opened⟩, pairs⟩
  · rw [top, List.forall_mem_cons] at opened
    rw [stepped]
    refine ⟨opened.2, ?_⟩
    intro pair member
    rcases List.mem_append.mp member with member | member
    · exact pairs pair member
    · obtain rfl := List.mem_singleton.mp member
      exact opened.1
  · rw [stepped]
    exact ⟨opened, pairs⟩

theorem Bounded.run (bounded : matching.Bounded) (lexemes : List Lexeme) :
    (matching.run lexemes).Bounded := by
  induction lexemes generalizing matching with
  | nil => exact bounded
  | cons lexeme rest ih => exact ih (bounded.step lexeme)

theorem read_step (matching : Matching) (lexeme : Lexeme) :
    (matching.step lexeme).read = matching.read + 1 := by
  rcases matching.step_cases lexeme with ⟨-, same⟩ | ⟨_, _, _, -, -, same⟩ | same <;> rw [same]

theorem read_run (matching : Matching) (lexemes : List Lexeme) :
    (matching.run lexemes).read = matching.read + lexemes.length := by
  induction lexemes generalizing matching with
  | nil => rfl
  | cons lexeme rest ih =>
    rw [run_cons, ih, read_step, List.length_cons]
    omega

end Matching

/-- Around a properly nested inside the stack makes partners of an opener and its closer. -/
theorem partner?_group {first last : Lexeme} {inner : List Lexeme}
    (kind : first.category.closer? = some last.category) (nested : Nested inner)
    (front after : List Lexeme) :
    partner? (front ++ first :: (inner ++ last :: after)) front.length =
      some (front.length + 1 + inner.length) := by
  have bounded : (Matching.start.run front).Bounded :=
    Matching.Bounded.run ⟨List.forall_mem_nil _, List.forall_mem_nil _⟩ front
  have read : (Matching.start.run front).read = front.length := by
    rw [Matching.read_run, Matching.start, Nat.zero_add]
  obtain ⟨held, group, inside⟩ :=
    Matching.run_group kind (Matching.settles_of_nested nested) (Matching.start.run front) after
  obtain ⟨more, pairs⟩ := Matching.run_pairs _ after
  have before : (Matching.start.run front).pairs.lookup front.length = none := by
    rw [List.lookup_eq_none_iff]
    intro pair member
    have earlier := bounded.pairs pair member
    exact bne_iff_ne.mpr (by omega)
  have within : held.lookup front.length = none := by
    rw [List.lookup_eq_none_iff]
    intro pair member
    have later := inside pair member
    exact bne_iff_ne.mpr (by omega)
  rw [partner?, Matching.run_append, group, pairs, List.lookup_append, List.lookup_append,
    List.lookup_append, before, within, read]
  simp

/-- In a properly nested list the search finds the partner that a stack of all brackets assigns, and
what stands between the two is properly nested. -/
theorem matchingClose_nested {start : Nat} {opener : Lexeme} {closer : Category}
    (opens : lexemes[start]? = some opener) (kind : opener.category.closer? = some closer)
    (nested : Nested lexemes) :
    ∃ close, matchingClose lexemes opener.category closer start = .ok close ∧
      partner? lexemes start = some close ∧ Nested (lexemes.extract (start + 1) close) := by
  obtain ⟨inside, same⟩ := List.getElem?_eq_some_iff.mp opens
  have split : lexemes = lexemes.take start ++ opener :: lexemes.drop (start + 1) := by
    rw [← same, ← List.drop_eq_getElem_cons inside, List.take_append_drop]
  obtain ⟨inner, last, after, rest, nestedInner, pair⟩ :=
    nested.partner split (Category.isOpener_of_closer? kind)
  obtain rfl : closer = last.category := Option.some.inj (kind.symm.trans pair)
  have assigned := partner?_group pair nestedInner (lexemes.take start) after
  rw [← rest, ← split, List.length_take_of_le (Nat.le_of_lt inside)] at assigned
  have group := takeGroup_matchingClose opens kind
  rw [rest, takeGroup_nested pair nestedInner after] at group
  cases found : matchingClose lexemes opener.category last.category start with
  | error fault =>
    rw [found] at group
    exact absurd (Prod.mk.inj group).1 nofun
  | ok close =>
    rw [found] at group
    obtain ⟨behind, within, taken⟩ := group
    have held : inner = lexemes.extract (start + 1) close :=
      Except.ok.inj (Prod.mk.inj taken).1
    have place : start + 1 + inner.length = close := by
      rw [held, List.extract_eq_take_drop, List.length_take, List.length_drop]
      omega
    exact ⟨close, rfl, place ▸ assigned, held ▸ nestedInner⟩

/-- The search for a partner finds the first place behind an opener where brackets of its kind
balance, and where there is none the opener is unclosed. In a properly nested list it finds the
partner that a stack of all brackets assigns, and what stands between the two is properly nested. -/
theorem matchingClose_partner {start : Nat} {opener : Lexeme} {closer : Category}
    (opens : lexemes[start]? = some opener) (kind : opener.category.closer? = some closer) :
    (∀ close, matchingClose lexemes opener.category closer start = .ok close ↔
      IsLeast {place | start < place ∧ place < lexemes.length ∧
        Balanced opener.category closer lexemes start place} close) ∧
    ((∀ place, start < place → place < lexemes.length →
        ¬ Balanced opener.category closer lexemes start place) →
      matchingClose lexemes opener.category closer start =
        .error ⟨.unclosed opener.text, opener.position⟩) ∧
    (Nested lexemes → ∃ close, matchingClose lexemes opener.category closer start = .ok close ∧
      partner? lexemes start = some close ∧ Nested (lexemes.extract (start + 1) close)) := by
  have search := matchingClose_first opens kind
  refine ⟨?_, ?_, matchingClose_nested opens kind⟩
  · intro close
    cases found : matchingClose lexemes opener.category closer start with
    | ok place =>
      rw [found] at search
      rw [Except.ok.injEq]
      exact ⟨fun same => same ▸ search, search.unique⟩
    | error fault =>
      rw [found] at search
      refine ⟨nofun, ?_⟩
      rintro ⟨⟨behind, -, balanced⟩, -⟩
      exact absurd balanced (search.2 close behind)
  · intro nowhere
    cases found : matchingClose lexemes opener.category closer start with
    | ok place =>
      rw [found] at search
      obtain ⟨behind, within, balanced⟩ := search.1
      exact absurd balanced (nowhere place behind within)
    | error fault =>
      rw [found] at search
      rw [search.1]

/-- The first parenthesis of `([]())`: its partner is the last, behind another kind of bracket and
behind another pair of its own. -/
theorem matchingClose_partner_outermost :
    ∃ lexemes : List Lexeme, lexemes.map Lexeme.text = ["(", "[", "]", "(", ")", ")"] ∧
      IsLeast {place | 0 < place ∧ place < lexemes.length ∧
        Balanced .leftParen .rightParen lexemes 0 place} 5 ∧
      partner? lexemes 0 = some 5 ∧ Nested (lexemes.extract 1 5) := by
  obtain ⟨least, -, partner⟩ := @matchingClose_partner [⟨⟨.openParen, "(", ⟨1, 1⟩⟩, .leftParen⟩,
    ⟨⟨.openBracket, "[", ⟨1, 2⟩⟩, .leftBracket⟩, ⟨⟨.closeBracket, "]", ⟨1, 3⟩⟩, .rightBracket⟩,
    ⟨⟨.openParen, "(", ⟨1, 4⟩⟩, .leftParen⟩, ⟨⟨.closeParen, ")", ⟨1, 5⟩⟩, .rightParen⟩,
    ⟨⟨.closeParen, ")", ⟨1, 6⟩⟩, .rightParen⟩] 0 _ .rightParen rfl rfl
  obtain ⟨close, found, assigned, inside⟩ := partner
    (@Nested.group _ _ [_, _, _, _] [] rfl (@Nested.group _ _ [] [_, _] rfl .nil
      (@Nested.group _ _ [] [] rfl .nil .nil)) .nil)
  obtain rfl : close = 5 := Except.ok.inj (found.symm.trans (by with_unfolding_all rfl))
  exact ⟨_, rfl, (least 5).mp found, assigned, inside⟩

end SigilScript
