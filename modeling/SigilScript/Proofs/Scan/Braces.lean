import SigilScript.Proofs.Nesting
import SigilScript.Scan.Context

/-! # The braces that a scanner holds open

The context of a scanner carries a stack of braces: behind a list of lexemes whose braces are
matched the stack is what it was before them. So a closing brace answers for the brace that it
matches, however much stands between them.
-/

namespace SigilScript

/-! ## Roles -/

theorem Category.ofWord_plain (word : String) :
    (ofWord word).isOpener = false ∧ (ofWord word).isCloser = false := by
  simp only [ofWord]
  repeat' split
  all_goals exact ⟨rfl, rfl⟩

theorem Category.ofWord_noMark (word : String) :
    ofWord word ≠ .comma ∧ ofWord word ≠ .terminator := by
  simp only [ofWord]
  repeat' split
  all_goals exact ⟨nofun, nofun⟩

theorem Category.ofOperator_plain (spelling : String) :
    (ofOperator spelling).isOpener = false ∧ (ofOperator spelling).isCloser = false := by
  simp only [ofOperator]
  split
  · exact ⟨rfl, rfl⟩
  · exact ⟨rfl, rfl⟩

/-- A word or an operator without a kind of its own is no bracket. -/
theorem Token.categoryAfter_plain {token : Token}
    (spelled : token.kind = .identifier ∨ token.kind = .operator) (previous : Option Category) :
    (token.categoryAfter previous).isOpener = false ∧
      (token.categoryAfter previous).isCloser = false := by
  rcases token with ⟨kind, text, position⟩
  rcases spelled with rfl | rfl
  · simp only [categoryAfter]
    split
    · exact ⟨rfl, rfl⟩
    · exact Category.ofWord_plain text
  · exact Category.ofOperator_plain text

theorem Token.categoryAfter_word {token : Token} (word : token.kind = .identifier)
    (previous : Option Category) : token.categoryAfter previous = .identifier ∨
      token.categoryAfter previous = .ofWord token.text := by
  rcases token with ⟨kind, text, position⟩
  obtain rfl : kind = .identifier := word
  simp only [categoryAfter]
  split
  · exact .inl rfl
  · exact .inr rfl

/-- A name is a word. -/
theorem Lexeme.isWord_of_name {lexeme : Lexeme} {previous : Option Category}
    (classified : lexeme = lexeme.token.classify previous) (name : lexeme.category = .identifier) :
    lexeme.isWord = true := by
  rw [classified] at name
  rcases lexeme with ⟨⟨kind, text, position⟩, role⟩
  cases kind with
  | identifier => rfl
  | operator =>
    simp only [Token.classify, Token.categoryAfter, Token.category, Category.ofOperator] at name
    split at name <;> contradiction
  | _ => simp [Token.classify, Token.categoryAfter, Token.category] at name

/-- Whether the role of a lexeme is that of a brace exactly where its token is one. -/
structure Lexeme.Faithful (lexeme : Lexeme) : Prop where
  opens : lexeme.category = .leftBrace ↔ lexeme.token.kind = .openBrace
  closes : lexeme.category = .rightBrace ↔ lexeme.token.kind = .closeBrace

theorem Token.faithful_classify (token : Token) (previous : Option Category) :
    (token.classify previous).Faithful := by
  by_cases spelled : token.kind = .identifier ∨ token.kind = .operator
  · obtain ⟨noOpener, noCloser⟩ := Token.categoryAfter_plain spelled previous
    constructor
    · constructor
      · intro opens
        rw [show token.categoryAfter previous = _ from opens] at noOpener
        contradiction
      · intro opens
        rw [show token.kind = _ from opens] at spelled
        simp at spelled
    · constructor
      · intro closes
        rw [show token.categoryAfter previous = _ from closes] at noCloser
        contradiction
      · intro closes
        rw [show token.kind = _ from closes] at spelled
        simp at spelled
  · rcases token with ⟨kind, text, position⟩
    cases kind with
    | identifier => exact absurd (.inl rfl) spelled
    | operator => exact absurd (.inr rfl) spelled
    | _ => exact ⟨by simp [classify, categoryAfter, category],
        by simp [classify, categoryAfter, category]⟩

/-! ## Contexts behind several tokens -/

namespace Context

/-- The context behind several tokens. -/
def after (context : Context) (tokens : List Token) : Context := tokens.foldl next context

/-- The lexemes of several tokens. -/
def lexemes (context : Context) : List Token → List Lexeme
  | [] => []
  | token :: rest => token.classify context.previous :: (context.next token).lexemes rest

theorem after_cons (context : Context) (token : Token) (rest : List Token) :
    context.after (token :: rest) = (context.next token).after rest := rfl

theorem after_append (context : Context) (first second : List Token) :
    context.after (first ++ second) = (context.after first).after second :=
  List.foldl_append

theorem lexemes_append (context : Context) (first second : List Token) :
    context.lexemes (first ++ second) =
      context.lexemes first ++ (context.after first).lexemes second := by
  induction first generalizing context with
  | nil => rfl
  | cons token rest ih => exact congrArg (_ :: ·) (ih (context.next token))

@[simp] theorem map_token_lexemes (context : Context) (tokens : List Token) :
    (context.lexemes tokens).map Lexeme.token = tokens := by
  induction tokens generalizing context with
  | nil => rfl
  | cons token rest ih => exact congrArg (token :: ·) (ih (context.next token))

theorem length_lexemes (context : Context) (tokens : List Token) :
    (context.lexemes tokens).length = tokens.length := by
  induction tokens generalizing context with
  | nil => rfl
  | cons token rest ih => exact congrArg (· + 1) (ih (context.next token))

/-- Every lexeme has a role that its token plays somewhere. -/
theorem classified_lexemes (context : Context) (tokens : List Token) :
    ∀ lexeme ∈ context.lexemes tokens, ∃ previous, lexeme = lexeme.token.classify previous := by
  induction tokens generalizing context with
  | nil => simp [lexemes]
  | cons token rest ih =>
    intro lexeme member
    rcases List.mem_cons.mp member with rfl | later
    · exact ⟨context.previous, rfl⟩
    · exact ih (context.next token) lexeme later

theorem faithful_lexemes (context : Context) (tokens : List Token) :
    ∀ lexeme ∈ context.lexemes tokens, lexeme.Faithful := by
  intro lexeme member
  obtain ⟨previous, same⟩ := context.classified_lexemes tokens lexeme member
  rw [same]
  exact lexeme.token.faithful_classify previous

theorem blocks_next_plain (context : Context) {token : Token} (opens : token.kind ≠ .openBrace)
    (closes : token.kind ≠ .closeBrace) : (context.next token).blocks = context.blocks := by
  rcases token with ⟨kind, text, position⟩
  cases kind <;> first | rfl | contradiction

theorem blocks_next_open (context : Context) {token : Token} (opens : token.kind = .openBrace) :
    (context.next token).blocks =
      braceOpensBlock context.previous context.afterBlock :: context.blocks := by
  simp only [next, opens]

theorem blocks_next_close (context : Context) {token : Token} (closes : token.kind = .closeBrace) :
    (context.next token).blocks = context.blocks.tail := by
  simp only [next, closes]

/-- Classifying carries the context along. -/
theorem classifyAfter_ok (context : Context) (tokens : List Token) (items : List Scanned) :
    classifyAfter context.previous (tokens.map .ok ++ items) =
      (context.lexemes tokens).map .ok ++ classifyAfter (context.after tokens).previous items := by
  induction tokens generalizing context with
  | nil => rfl
  | cons token rest ih =>
    exact congrArg (.ok (token.classify context.previous) :: ·) (ih (context.next token))

end Context

/-! ## Matched braces -/

/-- A list of lexemes that closes `count` braces it does not open and leaves none open, whatever
its other brackets do. -/
inductive Braced : Nat → List Lexeme → Prop where
  | nil : Braced 0 []
  | plain {count : Nat} {lexeme : Lexeme} {rest : List Lexeme}
    (opens : lexeme.category ≠ .leftBrace) (closes : lexeme.category ≠ .rightBrace) :
    Braced count rest → Braced count (lexeme :: rest)
  | opener {count : Nat} {lexeme : Lexeme} {rest : List Lexeme}
    (opens : lexeme.category = .leftBrace) : Braced (count + 1) rest → Braced count (lexeme :: rest)
  | closer {count : Nat} {lexeme : Lexeme} {rest : List Lexeme}
    (closes : lexeme.category = .rightBrace) :
    Braced count rest → Braced (count + 1) (lexeme :: rest)

/-- A block in braces: an opening brace, its partner, and what stands between them. -/
inductive IsBlock : List Lexeme → Prop where
  | braces {opener closer : Lexeme} {inner : List Lexeme} (opens : opener.category = .leftBrace)
    (closes : closer.category = .rightBrace) (matched : Braced 0 inner) :
    IsBlock (opener :: (inner ++ [closer]))

variable {count : Nat} {lexemes : List Lexeme}

namespace Braced

theorem append {more : Nat} {first second : List Lexeme} (left : Braced count first)
    (right : Braced more second) : Braced (count + more) (first ++ second) := by
  induction left with
  | nil => rwa [Nat.zero_add]
  | plain opens closes _ ih => exact .plain opens closes ih
  | opener opens _ ih =>
    rw [Nat.add_right_comm] at ih
    exact .opener opens ih
  | closer closes _ ih =>
    rw [Nat.add_right_comm]
    exact .closer closes ih

/-- A list whose braces are matched, between braces. -/
theorem enclosed {opener closer : Lexeme} {inner : List Lexeme} (matched : Braced 0 inner)
    (opens : opener.category = .leftBrace) (closes : closer.category = .rightBrace) :
    Braced 0 (opener :: (inner ++ [closer])) :=
  .opener opens (matched.append (.closer closes .nil))

/-- Behind a list of lexemes the braces that it closes are gone from the stack. -/
theorem blocks_after (matched : Braced count lexemes)
    (faithful : ∀ lexeme ∈ lexemes, lexeme.Faithful) (context : Context) :
    (context.after (lexemes.map Lexeme.token)).blocks = context.blocks.drop count := by
  induction matched generalizing context with
  | nil => rfl
  | @plain count lexeme rest opens closes _ ih =>
    have kinds := faithful lexeme (List.mem_cons_self ..)
    have same := context.blocks_next_plain (fun kind => opens (kinds.opens.mpr kind))
        fun kind => closes (kinds.closes.mpr kind)
    rw [List.map_cons, Context.after_cons,
      ih fun other member => faithful other (List.mem_cons_of_mem _ member), same]
  | @opener count lexeme rest opens _ ih =>
    have opened := (faithful lexeme (List.mem_cons_self ..)).opens.mp opens
    rw [List.map_cons, Context.after_cons,
      ih fun other member => faithful other (List.mem_cons_of_mem _ member),
      context.blocks_next_open opened, List.drop_succ_cons]
  | @closer count lexeme rest closes _ ih =>
    have closed := (faithful lexeme (List.mem_cons_self ..)).closes.mp closes
    rw [List.map_cons, Context.after_cons,
      ih fun other member => faithful other (List.mem_cons_of_mem _ member),
      context.blocks_next_close closed, List.drop_tail]

end Braced

theorem Nested.braced (nested : Nested lexemes) : Braced 0 lexemes := by
  induction nested with
  | nil => exact .nil
  | @plain lexeme rest opens closes _ ih =>
    refine .plain ?_ ?_ ih
    · intro same
      rw [same] at opens
      contradiction
    · intro same
      rw [same] at closes
      contradiction
  | @group opener closer inner rest partner _ _ ihInner ihRest =>
    by_cases opens : opener.category = .leftBrace
    · rw [opens] at partner
      exact .opener opens (ihInner.append (.closer (Option.some.inj partner).symm ihRest))
    · -- The brackets of another kind stand among the braces like any lexeme.
      have noCloser : opener.category ≠ .rightBrace := by
        intro same
        rw [same] at partner
        contradiction
      have others : closer.category ≠ .leftBrace ∧ closer.category ≠ .rightBrace := by
        constructor
        · intro same
          have closes := Category.isCloser_of_closer? partner
          rw [same] at closes
          contradiction
        · intro same
          rw [same] at partner
          exact opens (Category.closer?_inj partner rfl)
      exact .plain opens noCloser (ihInner.append (.plain others.1 others.2 ihRest))

/-- What stands before the partner of a brace. -/
theorem Braced.of_cutAtPartner? {cut : Cut}
    (found : cutAtPartner? .leftBrace .rightBrace (count + 1) lexemes = some cut) :
    Braced count cut.before := by
  induction lexemes generalizing count cut with
  | nil => contradiction
  | cons lexeme rest ih =>
    simp only [cutAtPartner?] at found
    split at found
    · next opens =>
      obtain ⟨inner, reached, rfl⟩ := Option.map_eq_some_iff.mp found
      exact .opener opens (ih reached)
    · next opens =>
      split at found
      · next closes =>
        split at found
        · next last =>
          obtain rfl := Option.some.inj found
          obtain rfl : count = 0 := by omega
          exact .nil
        · next inside =>
          obtain ⟨inner, reached, rfl⟩ := Option.map_eq_some_iff.mp found
          obtain ⟨fewer, rfl⟩ : ∃ fewer, count = fewer + 1 := ⟨count - 1, by omega⟩
          exact .closer closes (ih reached)
      · next closes =>
        obtain ⟨inner, reached, rfl⟩ := Option.map_eq_some_iff.mp found
        exact .plain opens closes (ih reached)

/-! ## Matched braces within others -/

namespace Braced

variable {total : Nat} {front rest : List Lexeme}

/-- A list closes what its front closes, and then what the rest of it closes. -/
theorem behind (before : Braced count front) (whole : Braced total (front ++ rest)) :
    ∃ more, total = count + more ∧ Braced more rest := by
  induction before generalizing total with
  | nil => exact ⟨total, (Nat.zero_add total).symm, whole⟩
  | plain opens closes _ ih =>
    cases whole with
    | plain _ _ whole => exact ih whole
    | opener opens' => contradiction
    | closer closes' => contradiction
  | opener opens _ ih =>
    cases whole with
    | plain opens' => contradiction
    | opener _ whole =>
      obtain ⟨more, same, behind⟩ := ih whole
      exact ⟨more, by omega, behind⟩
    | closer closes =>
      rw [opens] at closes
      contradiction
  | closer closes _ ih =>
    cases whole with
    | plain _ closes' => contradiction
    | opener opens =>
      rw [closes] at opens
      contradiction
    | closer _ whole =>
      obtain ⟨more, same, behind⟩ := ih whole
      exact ⟨more, by omega, behind⟩

/-- An end of a list that leaves no brace open leaves none open. -/
theorem suffix (whole : Braced total (front ++ rest)) : ∃ more, Braced more rest := by
  induction front generalizing total with
  | nil => exact ⟨total, whole⟩
  | cons lexeme front ih =>
    cases whole with
    | plain _ _ whole => exact ih whole
    | opener _ whole => exact ih whole
    | closer _ whole => exact ih whole

/-- Behind so many braces that a list closes, the next one that it closes can be pointed out. -/
theorem exists_closer {fewer : Nat} (matched : Braced count rest) (less : fewer < count) :
    ∃ inner closer later, rest = inner ++ closer :: later ∧
      closer.category = .rightBrace ∧ Braced fewer inner := by
  induction matched generalizing fewer with
  | nil => contradiction
  | @plain count lexeme rest opens closes _ ih =>
    obtain ⟨inner, closer, later, rfl, role, within⟩ := ih less
    exact ⟨lexeme :: inner, closer, later, rfl, role, .plain opens closes within⟩
  | @opener count lexeme rest opens _ ih =>
    obtain ⟨inner, closer, later, rfl, role, within⟩ := ih (Nat.succ_lt_succ less)
    exact ⟨lexeme :: inner, closer, later, rfl, role, .opener opens within⟩
  | @closer count lexeme rest closes _ ih =>
    cases fewer with
    | zero => exact ⟨[], lexeme, rest, rfl, closes, .nil⟩
    | succ fewer =>
      obtain ⟨inner, closer, later, rfl, role, within⟩ := ih (Nat.lt_of_succ_lt_succ less)
      exact ⟨lexeme :: inner, closer, later, rfl, role, .closer closes within⟩

/-- A brace that is opened in a list is closed in it. -/
theorem partner {opener : Lexeme} (whole : Braced total (front ++ opener :: rest))
    (opens : opener.category = .leftBrace) : ∃ inner closer later,
      rest = inner ++ closer :: later ∧ closer.category = .rightBrace ∧ Braced 0 inner := by
  obtain ⟨more, behind⟩ := whole.suffix
  cases behind with
  | plain opens' => contradiction
  | opener _ behind => exact behind.exists_closer (Nat.succ_pos more)
  | closer closes =>
    rw [opens] at closes
    contradiction

end Braced

end SigilScript
