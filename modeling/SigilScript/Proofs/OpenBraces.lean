import SigilScript.Proofs.Answers
import SigilScript.Proofs.Scan.Closing
import SigilScript.Proofs.Scan.Unseen
import SigilScript.Proofs.Spacing

/-! # The braces that are open

The context of a scanner is a summary of the tokens so far, whatever faults and gaps stand between
them. Its role is the one that the classifier gives the last token, and its stack says of each brace
that no later brace has closed what it opened, the innermost first. Which brace closes which is told
from the items alone, without a stack: the braces between the two are matched.
-/

namespace SigilScript

/-! ## Lexemes among items -/

/-- The lexemes among the items from one index up to another. -/
def lexemesBetween (items : List Classified) (first last : Nat) : List Lexeme :=
  lexemesOf (items.extract first last)

variable {items : List Classified} {first middle last index : Nat} {lexeme : Lexeme}

theorem lexemesBetween_self (items : List Classified) (index : Nat) :
    lexemesBetween items index index = [] := by
  simp [lexemesBetween, lexemesOf, List.extract_eq_take_drop]

theorem lexemesBetween_append (before : first ≤ middle) (behind : middle ≤ last) :
    lexemesBetween items first last =
      lexemesBetween items first middle ++ lexemesBetween items middle last := by
  have split : items.extract first last =
      items.extract first middle ++ items.extract middle last := by
    rw [List.extract_eq_take_drop, List.extract_eq_take_drop, List.extract_eq_take_drop,
      show last - first = (middle - first) + (last - middle) by omega, List.take_add,
      List.drop_drop, Nat.add_sub_cancel' before]
  rw [lexemesBetween, split, lexemesOf, List.filterMap_append]
  rfl

theorem lexemesBetween_succ (items : List Classified) (index : Nat) :
    lexemesBetween items index (index + 1) =
      (items[index]?.bind Except.toOption).toList := by
  have single : items.extract index (index + 1) = items[index]?.toList := by
    rw [List.extract_eq_take_drop, Nat.add_sub_cancel_left, List.take_one, List.head?_drop]
  rw [lexemesBetween, single, lexemesOf]
  cases items[index]? with
  | none => rfl
  | some item => cases item <;> rfl

theorem lexemesBetween_at (found : items[index]? = some (.ok lexeme)) (before : first ≤ index)
    (behind : index < last) :
    lexemesBetween items first last =
      lexemesBetween items first index ++ lexeme :: lexemesBetween items (index + 1) last := by
  have single : lexemesBetween items index (index + 1) = [lexeme] := by
    rw [lexemesBetween_succ, found]
    rfl
  rw [lexemesBetween_append before (Nat.le_of_lt behind),
    lexemesBetween_append (Nat.le_succ index) behind, single, List.singleton_append]

/-- What stands in an extract stands in the list. -/
theorem extract_split {α : Type} {list before later : List α} {item : α}
    (split : list.extract first last = before ++ item :: later) :
    first + before.length < last ∧ list[first + before.length]? = some item ∧
      list.extract first (first + before.length) = before := by
  rw [List.extract_eq_take_drop] at split
  have shorter : before.length < last - first := by
    have lengths := congrArg List.length split
    rw [List.length_take, List.length_append, List.length_cons] at lengths
    omega
  refine ⟨by omega, ?_, ?_⟩
  · rw [← List.getElem?_drop, ← List.getElem?_take_of_lt shorter, split,
      List.getElem?_append_right (Nat.le_refl _), Nat.sub_self, List.getElem?_cons_zero]
  · rw [List.extract_eq_take_drop, Nat.add_sub_cancel_left,
      ← Nat.min_eq_left (Nat.le_of_lt shorter), ← List.take_take, split, List.take_left]

/-- A lexeme among the items is one of them. -/
theorem exists_index {front rest : List Lexeme}
    (split : lexemesBetween items first last = front ++ lexeme :: rest) :
    ∃ index, first ≤ index ∧ index < last ∧ items[index]? = some (.ok lexeme) ∧
      lexemesBetween items first index = front := by
  obtain ⟨before, behind, whole, rfl, here⟩ := List.filterMap_eq_append_iff.mp split
  obtain ⟨faults, item, later, rfl, noLexeme, isLexeme, -⟩ := List.filterMap_eq_cons_iff.mp here
  rw [← List.append_assoc] at whole
  obtain ⟨inside, found, front⟩ := extract_split whole
  refine ⟨_, Nat.le_add_right .., inside, ?_, ?_⟩
  · cases item with
    | error fault => contradiction
    | ok other =>
      obtain rfl : other = lexeme := Option.some.inj isLexeme
      exact found
  · rw [lexemesBetween, front, lexemesOf, List.filterMap_append,
      List.filterMap_eq_nil_iff.mpr noLexeme, List.append_nil]

/-! ## Braces that are open -/

/-- Whether the item at an index is a lexeme of this role. -/
def HasRole (items : List Classified) (role : Category) (index : Nat) : Prop :=
  ∃ lexeme, items[index]? = some (.ok lexeme) ∧ lexeme.category = role

/-- Whether the brace at one index is closed by the brace at another: the braces between the two are
matched, whatever faults and other brackets stand there. -/
structure ClosedAt (items : List Classified) (opening closing : Nat) : Prop where
  order : opening < closing
  opens : HasRole items .leftBrace opening
  closes : HasRole items .rightBrace closing
  matched : Braced 0 (lexemesBetween items (opening + 1) closing)

/-- Whether a brace is open behind so many items: none of them closes it. -/
structure OpenBehind (items : List Classified) (count opening : Nat) : Prop where
  before : opening < count
  opens : HasRole items .leftBrace opening
  unclosed : ∀ closing < count, ¬ ClosedAt items opening closing

variable {count opening closing : Nat} {opened outer : List Nat}

/-- A brace among items whose braces are closed among them is closed among them. -/
theorem exists_closedAt {total : Nat} (matched : Braced total (lexemesBetween items first last))
    (opens : HasRole items .leftBrace opening) (before : first ≤ opening)
    (behind : opening < last) : ∃ closing < last, ClosedAt items opening closing := by
  have ⟨opener, found, role⟩ := opens
  rw [lexemesBetween_at found before behind] at matched
  obtain ⟨inner, closer, later, split, closes, within⟩ := matched.partner role
  obtain ⟨closing, order, inside, isCloser, between⟩ := exists_index split
  exact ⟨closing, inside, order, opens, ⟨closer, isCloser, closes⟩, between ▸ within⟩

/-- Where all braces behind a brace are matched, none of them closes it. -/
theorem not_closedAt (matched : Braced 0 (lexemesBetween items (opening + 1) count))
    (inside : closing < count) : ¬ ClosedAt items opening closing := by
  intro closed
  obtain ⟨closer, found, role⟩ := closed.closes
  rw [lexemesBetween_at found closed.order inside] at matched
  obtain ⟨more, total, behind⟩ := closed.matched.behind matched
  cases behind with
  | plain _ closes => contradiction
  | opener opens =>
    rw [role] at opens
    contradiction
  | closer => omega

/-- An open brace was open before, from its own place on. -/
theorem OpenBehind.earlier {fewer : Nat} (isOpen : OpenBehind items count opening)
    (before : opening < fewer) (less : fewer < count) : OpenBehind items fewer opening := by
  refine ⟨before, isOpen.opens, ?_⟩
  intro closing inside
  exact isOpen.unclosed closing (inside.trans less)

/-- A brace stays open as long as a brace inside it does. -/
theorem OpenBehind.onward {innermost : Nat} (isOpen : OpenBehind items innermost opening)
    (before : innermost < count) (opens : HasRole items .leftBrace innermost)
    (unclosed : ∀ closing < count, ¬ ClosedAt items innermost closing) :
    OpenBehind items count opening := by
  refine ⟨isOpen.before.trans before, isOpen.opens, ?_⟩
  intro closing inside closed
  rcases Nat.lt_trichotomy closing innermost with earlier | rfl | later
  · exact isOpen.unclosed closing earlier closed
  · obtain ⟨opener, found, role⟩ := opens
    obtain ⟨closer, found', role'⟩ := closed.closes
    obtain rfl := Except.ok.inj (Option.some.inj (found.symm.trans found'))
    rw [role] at role'
    contradiction
  · -- The inner brace stands between the two, so it would be closed there itself.
    obtain ⟨sooner, less, closed'⟩ := exists_closedAt closed.matched opens isOpen.before later
    exact unclosed sooner (less.trans inside) closed'

/-- The braces that are open behind so many items, the innermost first: behind each of them, up to
the next one inside it, the braces are matched. -/
inductive Holds (items : List Classified) : Nat → List Nat → Prop where
  | outside {total count : Nat} (closed : Braced total (lexemesBetween items 0 count)) :
    Holds items count []
  | inside {count opening : Nat} {outer : List Nat} (before : opening < count)
    (opens : HasRole items .leftBrace opening)
    (matched : Braced 0 (lexemesBetween items (opening + 1) count))
    (held : Holds items opening outer) : Holds items count (opening :: outer)

namespace Holds

/-- Items whose braces are matched leave open what was open. -/
theorem extend {further : Nat} (held : Holds items count opened) (le : count ≤ further)
    (matched : Braced 0 (lexemesBetween items count further)) : Holds items further opened := by
  cases held with
  | outside closed =>
    have whole := closed.append matched
    rw [← lexemesBetween_append (Nat.zero_le count) le] at whole
    exact .outside whole
  | @inside _ opening outer before opens within held =>
    refine .inside (Nat.lt_of_lt_of_le before le) opens ?_ held
    rw [lexemesBetween_append before le]
    exact within.append matched

/-- A brace that is opened is the innermost one. -/
theorem opener (held : Holds items count opened) (opens : HasRole items .leftBrace count) :
    Holds items (count + 1) (count :: opened) := by
  refine .inside (Nat.lt_succ_self count) opens ?_ held
  rw [lexemesBetween_self]
  exact .nil

/-- A closing brace closes the innermost one. -/
theorem closer (held : Holds items count (opening :: outer))
    (closes : HasRole items .rightBrace count) : Holds items (count + 1) outer := by
  cases held with
  | inside before opens within held =>
    refine held.extend (Nat.le_succ_of_le (Nat.le_of_lt before)) ?_
    obtain ⟨first, found, role⟩ := opens
    obtain ⟨last, found', role'⟩ := closes
    rw [lexemesBetween_at found (Nat.le_refl opening) (Nat.lt_succ_of_lt before),
      lexemesBetween_at found' before (Nat.lt_succ_self count), lexemesBetween_self,
      lexemesBetween_self, List.nil_append]
    exact within.enclosed role role'

/-- A closing brace where none is open leaves none open. -/
theorem stray (held : Holds items count []) (closes : HasRole items .rightBrace count) :
    Holds items (count + 1) [] := by
  cases held with
  | outside closed =>
    obtain ⟨last, found, role⟩ := closes
    have split := lexemesBetween_at found (Nat.zero_le count) (Nat.lt_succ_self count)
    rw [lexemesBetween_self] at split
    have whole := closed.append (.closer role .nil)
    rw [← split] at whole
    exact .outside whole

/-- The braces that are held are those that are open, the innermost first. -/
theorem openBehind (held : Holds items count opened) :
    opened.Pairwise (· > ·) ∧ ∀ opening, opening ∈ opened ↔ OpenBehind items count opening := by
  induction held with
  | outside closed =>
    constructor
    · exact .nil
    · intro opening
      constructor
      · intro member
        exact absurd member List.not_mem_nil
      · intro isOpen
        obtain ⟨closing, inside, closedAt⟩ :=
          exists_closedAt closed isOpen.opens (Nat.zero_le opening) isOpen.before
        exact absurd closedAt (isOpen.unclosed closing inside)
  | @inside count innermost outer before opens matched _ ih =>
    obtain ⟨sorted, members⟩ := ih
    have unclosed : ∀ closing < count, ¬ ClosedAt items innermost closing :=
      fun closing inside => not_closedAt matched inside
    constructor
    · exact List.pairwise_cons.mpr
        ⟨fun opening member => ((members opening).mp member).before, sorted⟩
    · intro opening
      constructor
      · intro member
        rcases List.mem_cons.mp member with rfl | member
        · exact ⟨before, opens, unclosed⟩
        · exact ((members opening).mp member).onward before opens unclosed
      · intro isOpen
        rcases Nat.lt_trichotomy opening innermost with outside | rfl | within
        · apply List.mem_cons_of_mem
          exact (members opening).mpr (isOpen.earlier outside before)
        · exact List.mem_cons_self
        · obtain ⟨closing, inside, closed⟩ :=
            exists_closedAt matched isOpen.opens within isOpen.before
          exact absurd closed (isOpen.unclosed closing inside)

end Holds

/-! ## The context so far -/

/-- Classifying gives a token its role and changes nothing else. -/
theorem map_token_classifyAfter (previous : Option Category) (items : List Scanned) :
    (classifyAfter previous items).map (Except.map Lexeme.token) = items := by
  induction items generalizing previous with
  | nil => rfl
  | cons item items ih => cases item <;> exact congrArg (_ :: ·) (ih _)

/-- The lexemes of some items are those of their tokens: a fault changes no role. -/
theorem lexemesOf_classifyAfter (context : Context) (items : List Scanned) :
    lexemesOf (classifyAfter context.previous items) =
      context.lexemes (items.filterMap Except.toOption) := by
  induction items generalizing context with
  | nil => rfl
  | cons item items ih =>
    cases item with
    | error fault => exact ih context
    | ok token => exact congrArg (token.classify context.previous :: ·) (ih (context.next token))

namespace Scanner

variable {text : List Char} {call calls : Nat}

/-- The tokens that so many calls answer. -/
def tokensRead (text : List Char) (calls : Nat) : List Token :=
  (answered text calls).filterMap Except.toOption

/-- Only a token changes the context. -/
theorem context_next (scanner : Scanner) :
    scanner.next.2.context =
      scanner.next.1.elim scanner.context (contextBehind scanner.context) := by
  cases finished : scanner.finished with
  | true =>
    rw [next_of_finished finished]
    rfl
  | false =>
    have found := next_cases finished
    generalize scanner.next = answer at found
    cases found <;> rfl

theorem answered_succ (text : List Char) (calls : Nat) :
    answered text (calls + 1) = answered text calls ++ (answer text calls).toList := by
  cases found : answer text calls <;> simp [answered, List.range_succ, found]

theorem answered_eq_take (text : List Char) (calls : Nat) :
    answered text calls = (scan text).take calls := by
  induction calls with
  | zero => rfl
  | succ calls ih => rw [answered_succ, ih, List.take_add_one, getElem?_scan]

/-- The context is the one that the tokens so far lead to. -/
theorem context_called (text : List Char) (calls : Nat) :
    (called text calls).context = Context.start.after (tokensRead text calls) := by
  induction calls with
  | zero => rfl
  | succ calls ih =>
    have step := (called text calls).context_next
    rw [next_called, ih] at step
    rw [tokensRead, answered_succ, List.filterMap_append, Context.after_append, step]
    rcases answer text calls with _ | (_ | _) <;> rfl

/-- The lexemes that so many calls answer are those of their tokens. -/
theorem lexemesBetween_called (text : List Char) (calls : Nat) :
    lexemesBetween (classifyAll (scan text)) 0 calls =
      Context.start.lexemes (tokensRead text calls) := by
  rw [lexemesBetween, List.extract_eq_take_drop, List.drop_zero, Nat.sub_zero, classifyAll,
    ← classifyAfter_take, ← answered_eq_take]
  exact lexemesOf_classifyAfter .start _

/-- The lexemes so far have the roles that their tokens play, and lead to the context. -/
theorem reads_called (text : List Char) (calls : Nat) :
    Context.start.Reads (lexemesBetween (classifyAll (scan text)) 0 calls) ∧
      (called text calls).context = Context.start.after
        ((lexemesBetween (classifyAll (scan text)) 0 calls).map Lexeme.token) := by
  rw [Context.Reads, lexemesBetween_called, Context.map_token_lexemes, context_called]
  exact ⟨rfl, rfl⟩

/-- Behind a lexeme the context is the next one, and the classifier has given it the role that it
has for the context. -/
theorem called_succ (found : (classifyAll (scan text))[call]? = some (.ok lexeme)) :
    lexeme.category = lexeme.token.categoryAfter (called text call).context.previous ∧
      (called text (call + 1)).context = (called text call).context.next lexeme.token := by
  obtain ⟨reads, context⟩ := reads_called text (call + 1)
  rw [lexemesBetween_at found (Nat.zero_le call) (Nat.lt_succ_self call), lexemesBetween_self]
    at reads context
  obtain ⟨behind, role⟩ := reads.after_concat
  rw [← (reads_called text call).2] at behind role
  exact ⟨role, context.trans behind⟩

/-- Where no lexeme is answered the context stays. -/
theorem called_succ_none (other : (classifyAll (scan text))[call]?.bind Except.toOption = none) :
    (called text (call + 1)).context = (called text call).context := by
  rw [(reads_called text (call + 1)).2, (reads_called text call).2,
    lexemesBetween_append (Nat.zero_le call) (Nat.le_succ call), lexemesBetween_succ, other,
    Option.toList_none, List.append_nil]

/-- A lexeme that is answered is a brace exactly where its token is one. -/
theorem faithful_called (found : (classifyAll (scan text))[call]? = some (.ok lexeme)) :
    lexeme.Faithful := by
  have reads := (reads_called text (call + 1)).1
  rw [lexemesBetween_at found (Nat.zero_le call) (Nat.lt_succ_self call)] at reads
  exact reads.faithful lexeme (List.mem_append_right _ List.mem_cons_self)

/-- Whether the brace that a call answers opens a block, by the context before it. -/
def opensAt (text : List Char) (call : Nat) : Bool :=
  braceOpensBlock (called text call).context.previous (called text call).context.afterBlock

/-- If the stack holds what the open braces have opened, it does so behind one more call. -/
theorem holds_step (held : Holds (classifyAll (scan text)) call opened)
    (blocks : (called text call).context.blocks = opened.map (opensAt text)) : ∃ opened',
      Holds (classifyAll (scan text)) (call + 1) opened' ∧
        (called text (call + 1)).context.blocks = opened'.map (opensAt text) := by
  rcases answered : (classifyAll (scan text))[call]?.bind Except.toOption with _ | lexeme
  · -- A fault, like the end of the text, changes neither the context nor what is open.
    refine ⟨opened, held.extend (Nat.le_succ call) ?_, ?_⟩
    · rw [lexemesBetween_succ, answered]
      exact .nil
    · rw [called_succ_none answered, blocks]
  · have found : (classifyAll (scan text))[call]? = some (.ok lexeme) := by
      obtain ⟨item, found, isLexeme⟩ := Option.bind_eq_some_iff.mp answered
      cases item with
      | error fault => contradiction
      | ok other => exact Option.some.inj isLexeme ▸ found
    have kinds := faithful_called found
    rw [(called_succ found).2]
    by_cases opens : lexeme.category = .leftBrace
    · refine ⟨call :: opened, held.opener ⟨lexeme, found, opens⟩, ?_⟩
      rw [Context.blocks_next_open _ (kinds.opens.mp opens), blocks]
      rfl
    · by_cases closes : lexeme.category = .rightBrace
      · -- The stack loses the entry of the brace that is closed, the innermost one.
        rw [Context.blocks_next_close _ (kinds.closes.mp closes), blocks]
        cases opened with
        | nil => exact ⟨[], held.stray ⟨lexeme, found, closes⟩, rfl⟩
        | cons opening outer => exact ⟨outer, held.closer ⟨lexeme, found, closes⟩, rfl⟩
      · refine ⟨opened, held.extend (Nat.le_succ call) ?_, ?_⟩
        · rw [lexemesBetween_succ, answered]
          exact .plain opens closes .nil
        · rw [Context.blocks_next_plain _ (fun kind => opens (kinds.opens.mpr kind))
            fun kind => closes (kinds.closes.mpr kind), blocks]

/-- After any number of calls the stack holds what the open braces have opened. -/
theorem holds_called (text : List Char) (calls : Nat) : ∃ opened,
    Holds (classifyAll (scan text)) calls opened ∧
      (called text calls).context.blocks = opened.map (opensAt text) := by
  induction calls with
  | zero =>
    have closed : Braced 0 (lexemesBetween (classifyAll (scan text)) 0 0) := by
      rw [lexemesBetween_self]
      exact .nil
    exact ⟨[], .outside closed, rfl⟩
  | succ calls ih =>
    obtain ⟨opened, held, blocks⟩ := ih
    exact holds_step held blocks

/-- A closing brace answers for what the brace that it closes has opened. -/
theorem closesBlock_partner (closed : ClosedAt (classifyAll (scan text)) opening call) :
    (called text call).context.closesBlock = opensAt text opening := by
  obtain ⟨opener, found, opens⟩ := closed.opens
  obtain ⟨reads, context⟩ := reads_called text call
  rw [lexemesBetween_at found (Nat.zero_le opening) closed.order] at reads context
  rw [context, reads.closesBlock_inside opens closed.matched, ← (reads_called text opening).2]
  rfl

/-- A closing brace that closes none is taken for the end of a block. -/
theorem closesBlock_alone (found : (classifyAll (scan text))[call]? = some (.ok lexeme))
    (closes : lexeme.category = .rightBrace)
    (alone : ∀ opening, ¬ ClosedAt (classifyAll (scan text)) opening call) :
    (called text call).context.closesBlock = true := by
  obtain ⟨opened, held, blocks⟩ := holds_called text call
  cases held with
  | outside =>
    rw [Context.closesBlock, blocks]
    rfl
  | inside before opens matched =>
    exact absurd ⟨before, opens, ⟨lexeme, found, closes⟩, matched⟩ (alone _)

/-- A brace opens a block by the context before it where it does by the lexemes before it. -/
theorem opensAt_iff (text : List Char) (call : Nat) :
    opensAt text call = true ↔ OpensBlock (lexemesBetween (classifyAll (scan text)) 0 call) := by
  obtain ⟨reads, context⟩ := reads_called text call
  have same : opensAt text call = (called text call).context.opensBlock := rfl
  rw [same, context]
  exact ⟨reads.opensBlock_of_stack, fun opens => Context.Reads.stack_of_opensBlock opens reads⟩

/-- A token that a call answers has a lexeme in its place. -/
theorem exists_lexeme {token : Token} (answered : answer text call = some (.ok token)) :
    ∃ lexeme, (classifyAll (scan text))[call]? = some (.ok lexeme) ∧ lexeme.token = token := by
  rw [← getElem?_scan, ← map_token_classifyAfter none (scan text), List.getElem?_map] at answered
  obtain ⟨item, found, isToken⟩ := Option.map_eq_some_iff.mp answered
  cases item with
  | error fault => contradiction
  | ok lexeme => exact ⟨lexeme, found, Except.ok.inj isToken⟩

/-- What the context behind a call that answers a lexeme says of the lexemes so far. -/
structure Mirrors (text : List Char) (call : Nat) (lexeme : Lexeme) : Prop where
  /-- The role is the one that the classifier gives. -/
  role : (called text (call + 1)).context.previous = some lexeme.category
  /-- The lexeme is a brace exactly where its token is one. -/
  braces : lexeme.Faithful
  /-- The stack has one entry for each open brace, the innermost first: whether it opens a block. -/
  stack : ∃ opened : List Nat, opened.Pairwise (· > ·) ∧
    (∀ opening, opening ∈ opened ↔ OpenBehind (classifyAll (scan text)) (call + 1) opening) ∧
    (called text (call + 1)).context.blocks = opened.map (opensAt text)
  /-- A brace closes a block exactly where the brace that it closes opened one. -/
  partner : ∀ opening, ClosedAt (classifyAll (scan text)) opening call →
    (called text (call + 1)).context.afterBlock = opensAt text opening
  /-- A closing brace that closes none is taken for the end of a block. -/
  alone : lexeme.category = .rightBrace →
    (∀ opening, ¬ ClosedAt (classifyAll (scan text)) opening call) →
      (called text (call + 1)).context.afterBlock = true
  /-- Nothing but a closing brace closes a block. -/
  plain : lexeme.category ≠ .rightBrace → (called text (call + 1)).context.afterBlock = false
  /-- Whether an operand ends is decided by the lexeme and by what its brace closes. -/
  operand : (called text (call + 1)).context.afterOperand =
    lexeme.token.endsOperand lexeme.category (called text (call + 1)).context.afterBlock

/-- Behind a closing brace the context says whether that brace closes a block. -/
theorem afterBlock_closer (found : (classifyAll (scan text))[call]? = some (.ok lexeme))
    (closes : lexeme.category = .rightBrace) :
    (called text (call + 1)).context.afterBlock = (called text call).context.closesBlock := by
  have kind := (faithful_called found).closes.mp closes
  rw [(called_succ found).2]
  simp only [Context.next, kind, decide_true, Bool.true_and]

theorem mirrors_called (found : (classifyAll (scan text))[call]? = some (.ok lexeme)) :
    Mirrors text call lexeme := by
  obtain ⟨role, context⟩ := called_succ found
  constructor
  case role =>
    rw [context, role]
    rfl
  case braces => exact faithful_called found
  case stack =>
    obtain ⟨opened, held, blocks⟩ := holds_called text (call + 1)
    obtain ⟨sorted, members⟩ := held.openBehind
    exact ⟨opened, sorted, members, blocks⟩
  case partner =>
    intro opening closed
    obtain ⟨closer, found', closes⟩ := closed.closes
    rw [afterBlock_closer found' closes, closesBlock_partner closed]
  case alone =>
    intro closes alone
    rw [afterBlock_closer found closes, closesBlock_alone found closes alone]
  case plain =>
    intro other
    have kind : lexeme.token.kind ≠ .closeBrace :=
      fun same => other ((faithful_called found).closes.mpr same)
    rw [context]
    simp only [Context.next, kind, decide_false, Bool.false_and]
  case operand =>
    rw [context, role]
    rfl

/-- Behind every token, also where faults stand among those before it, the context mirrors the
lexemes so far: it has the role that the classifier gives the token, one entry for each brace that
is open, and for a closing brace the entry of its partner. An entry says what the lexemes before the
brace say. So tokens that say the same lead to the same context, and an operand ends alike behind
them, whatever faults and gaps stand between them. -/
theorem context_mirrors (text : List Char) :
    (∀ call token, answer text call = some (.ok token) →
      ∃ lexeme, (classifyAll (scan text))[call]? = some (.ok lexeme) ∧ lexeme.token = token ∧
        Mirrors text call lexeme) ∧
    (∀ call, opensAt text call = true ↔
      OpensBlock (lexemesBetween (classifyAll (scan text)) 0 call)) ∧
    ∀ text' calls calls',
      (tokensRead text' calls').map Token.content = (tokensRead text calls).map Token.content →
        (called text' calls').context = (called text calls).context := by
  refine ⟨fun call token answered => ?_, opensAt_iff text, fun text' calls calls' same => ?_⟩
  · obtain ⟨lexeme, found, isToken⟩ := exists_lexeme answered
    exact ⟨lexeme, found, isToken, mirrors_called found⟩
  · rw [context_called, context_called, Context.after_content same]

/-- The last brace closes the block that the first one opens, with a fault, gaps and another pair of
braces between the two; without the fault and the gaps the context behind it is the same. -/
theorem context_mirrors_fault : ∃ text text' : List Char,
    text = "\x7b@; %h\x7b1\x7d \x7d".toList ∧ text' = "\x7b;%h\x7b1\x7d\x7d".toList ∧
      answer text 1 = some (.error ⟨.unexpectedCharacter '@', ⟨1, 2⟩⟩) ∧
      answer text 7 = some (.ok ⟨.closeBrace, "\x7d", ⟨1, 11⟩⟩) ∧
      ClosedAt (classifyAll (scan text)) 0 7 ∧ opensAt text 0 = true ∧
      (called text 8).context.afterBlock = opensAt text 0 ∧
      (called text 8).context.previous = some .rightBrace ∧
      (called text' 7).context = (called text 8).context := by
  refine ⟨_, _, rfl, rfl, by decide +kernel, by decide +kernel, ?_⟩
  obtain ⟨mirrors, entries, alike⟩ := context_mirrors "\x7b@; %h\x7b1\x7d \x7d".toList
  have opens : (classifyAll (scan "\x7b@; %h\x7b1\x7d \x7d".toList))[0]? =
      some (.ok ⟨⟨.openBrace, "\x7b", ⟨1, 1⟩⟩, .leftBrace⟩) := by decide +kernel
  have closes : (classifyAll (scan "\x7b@; %h\x7b1\x7d \x7d".toList))[7]? =
      some (.ok ⟨⟨.closeBrace, "\x7d", ⟨1, 11⟩⟩, .rightBrace⟩) := by decide +kernel
  have between : lexemesBetween (classifyAll (scan "\x7b@; %h\x7b1\x7d \x7d".toList)) 1 7 =
      [⟨⟨.semicolon, ";", ⟨1, 3⟩⟩, .terminator⟩, ⟨⟨.var .hash, "%h", ⟨1, 5⟩⟩, .var⟩,
        ⟨⟨.openBrace, "\x7b", ⟨1, 7⟩⟩, .leftBrace⟩, ⟨⟨.number, "1", ⟨1, 8⟩⟩, .literal⟩,
        ⟨⟨.closeBrace, "\x7d", ⟨1, 9⟩⟩, .rightBrace⟩] := by decide +kernel
  have closed : ClosedAt (classifyAll (scan "\x7b@; %h\x7b1\x7d \x7d".toList)) 0 7 := by
    refine ⟨by decide, ⟨_, opens, rfl⟩, ⟨_, closes, rfl⟩, ?_⟩
    rw [between]
    exact .plain nofun nofun (.plain nofun nofun
      (.opener rfl (.plain nofun nofun (.closer rfl .nil))))
  obtain ⟨lexeme, found, -, mirror⟩ := mirrors 7 ⟨.closeBrace, "\x7d", ⟨1, 11⟩⟩ (by decide +kernel)
  obtain rfl := Except.ok.inj (Option.some.inj (closes.symm.trans found))
  exact ⟨closed, (entries 0).mpr .start, mirror.partner 0 closed, mirror.role,
    alike _ _ _ (by decide +kernel)⟩

end Scanner

end SigilScript
