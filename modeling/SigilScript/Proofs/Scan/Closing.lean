import SigilScript.Proofs.Scan.Braces
import SigilScript.Scan.Scanner

/-! # What a closing brace closes

A scanner takes a closing brace for the end of a block or of an operand by what stands before its
partner, which it remembers on a stack. Here the same is said of the lexemes alone, without a
stack: the two agree on every list of lexemes, matched or not. Behind the end of an operand a
slash, a percent sign or a dot goes on with it, and elsewhere each begins an operand.
-/

namespace SigilScript

/-- Whether a brace right behind these lexemes would open a block: at the start, behind a role that
a block may follow, or behind a brace that closed a block itself. -/
inductive OpensBlock : List Lexeme → Prop where
  | start : OpensBlock []
  | role {front : List Lexeme} {last : Lexeme} (noCloser : last.category ≠ .rightBrace)
    (role : braceOpensBlock (some last.category) false = true) : OpensBlock (front ++ [last])
  | matched {front inner : List Lexeme} {opener closer : Lexeme}
    (opens : opener.category = .leftBrace) (closes : closer.category = .rightBrace)
    (matched : Braced 0 inner) :
    OpensBlock front → OpensBlock (front ++ opener :: (inner ++ [closer]))
  | unmatched {front : List Lexeme} {closer : Lexeme} (closes : closer.category = .rightBrace)
    (alone : ∀ before opener inner, front = before ++ opener :: inner →
      opener.category = .leftBrace → ¬ Braced 0 inner) : OpensBlock (front ++ [closer])

namespace Context

/-- Whether a brace would open a block here. -/
def opensBlock (context : Context) : Bool := braceOpensBlock context.previous context.afterBlock

/-- Whether every lexeme has the role that its token plays behind those before it. -/
def Reads (context : Context) (lexemes : List Lexeme) : Prop :=
  context.lexemes (lexemes.map Lexeme.token) = lexemes

variable {context : Context} {front more block : List Lexeme} {last : Lexeme}

theorem Reads.split (reads : context.Reads (front ++ more)) :
    context.Reads front ∧ (context.after (front.map Lexeme.token)).Reads more := by
  rw [Reads, List.map_append, lexemes_append] at reads
  exact List.append_inj reads (by rw [length_lexemes, List.length_map])

theorem Reads.faithful (reads : context.Reads front) : ∀ lexeme ∈ front, lexeme.Faithful := by
  rw [← reads]
  exact context.faithful_lexemes _

theorem Reads.classified (reads : context.Reads front) :
    ∀ lexeme ∈ front, ∃ previous, lexeme = lexeme.token.classify previous := by
  rw [← reads]
  exact context.classified_lexemes _

theorem Reads.names (reads : context.Reads front) :
    ∀ lexeme ∈ front, lexeme.category = .identifier → lexeme.isWord = true := by
  intro lexeme member name
  obtain ⟨previous, same⟩ := reads.classified lexeme member
  exact Lexeme.isWord_of_name same name

/-- The context behind a lexeme. -/
theorem Reads.after_concat (reads : context.Reads (front ++ [last])) :
    context.after ((front ++ [last]).map Lexeme.token) =
        (context.after (front.map Lexeme.token)).next last.token ∧
      last.category =
        last.token.categoryAfter (context.after (front.map Lexeme.token)).previous := by
  constructor
  · rw [List.map_append, after_append]
    rfl
  · have single := reads.split.2
    exact (congrArg Lexeme.category (List.cons.inj single).1).symm

theorem Reads.previous_after (reads : context.Reads (front ++ [last])) :
    (context.after ((front ++ [last]).map Lexeme.token)).previous = some last.category := by
  rw [reads.after_concat.1, reads.after_concat.2]
  rfl

/-- Inside an open brace the stack says first what the brace opened. -/
theorem Reads.blocks_inside {inner : List Lexeme} {opener : Lexeme}
    (reads : context.Reads (front ++ opener :: inner)) (opens : opener.category = .leftBrace)
    (matched : Braced 0 inner) :
    (context.after ((front ++ opener :: inner).map Lexeme.token)).blocks =
      (context.after (front.map Lexeme.token)).opensBlock ::
        (context.after (front.map Lexeme.token)).blocks := by
  have faithful := reads.faithful
  have opened := (faithful opener (by simp)).opens.mp opens
  have within := matched.blocks_after (fun lexeme member => faithful lexeme (by simp [member]))
    ((context.after (front.map Lexeme.token)).next opener.token)
  rw [List.drop_zero, blocks_next_open _ opened] at within
  rw [List.map_append, after_append, List.map_cons, after_cons, within]
  rfl

/-- Where the stack is not empty the brace that is open last can be pointed out. -/
theorem Reads.partner {front : List Lexeme} (reads : Context.start.Reads front)
    (held : (Context.start.after (front.map Lexeme.token)).blocks ≠ []) :
    ∃ (before : List Lexeme) (opener : Lexeme) (inner : List Lexeme),
      front = before ++ opener :: inner ∧ opener.category = .leftBrace ∧ Braced 0 inner := by
  rcases List.eq_nil_or_concat front with rfl | ⟨front, last, rfl⟩
  · exact absurd rfl held
  · rw [List.concat_eq_append] at reads held ⊢
    have kinds := reads.faithful last (by simp)
    rw [reads.after_concat.1] at held
    by_cases opens : last.category = .leftBrace
    · exact ⟨front, last, [], rfl, opens, .nil⟩
    · by_cases closes : last.category = .rightBrace
      · rw [blocks_next_close _ (kinds.closes.mp closes)] at held
        have open_ : (Context.start.after (front.map Lexeme.token)).blocks ≠ [] := by
          intro same
          rw [same] at held
          exact held rfl
        obtain ⟨before, opener, inner, rfl, opens', matched⟩ := partner reads.split.1 open_
        rw [reads.split.1.blocks_inside opens' matched, List.tail_cons] at held
        obtain ⟨before, opener', inner', rfl, opens'', matched'⟩ :=
          partner reads.split.1.split.1 held
        refine ⟨before, opener', inner' ++ opener :: (inner ++ [last]), ?_, opens'', ?_⟩
        · simp only [List.append_assoc, List.cons_append]
        · exact matched'.append (matched.enclosed opens' closes)
      · rw [blocks_next_plain _ (fun kind => opens (kinds.opens.mpr kind))
          fun kind => closes (kinds.closes.mpr kind)] at held
        obtain ⟨before, opener, inner, rfl, opens', matched⟩ := partner reads.split.1 held
        refine ⟨before, opener, inner ++ [last], ?_, opens', ?_⟩
        · simp only [List.append_assoc, List.cons_append]
        · exact matched.append (.plain opens closes .nil)
termination_by front.length

/-- Only behind a closing brace it matters what that brace closed. -/
theorem braceOpensBlock_other {role : Category} (noCloser : role ≠ .rightBrace) (flag : Bool) :
    braceOpensBlock (some role) flag = braceOpensBlock (some role) false := by
  cases role <;> first | rfl | contradiction

theorem Reads.opensBlock_other (reads : context.Reads (front ++ [last]))
    (noCloser : last.category ≠ .rightBrace) :
    (context.after ((front ++ [last]).map Lexeme.token)).opensBlock =
      braceOpensBlock (some last.category) false := by
  rw [opensBlock, reads.previous_after, braceOpensBlock_other noCloser]

/-- Behind a closing brace a further brace opens a block exactly where the first one closed one,
and that one ends an operand exactly where it did not. -/
theorem Reads.behind_closer (reads : context.Reads (front ++ [last]))
    (closes : last.category = .rightBrace) :
    (context.after ((front ++ [last]).map Lexeme.token)).opensBlock =
        (context.after (front.map Lexeme.token)).closesBlock ∧
      (context.after ((front ++ [last]).map Lexeme.token)).afterOperand =
        !(context.after (front.map Lexeme.token)).closesBlock := by
  have kind := (reads.faithful last (by simp)).closes.mp closes
  rw [reads.after_concat.1]
  rcases last with ⟨⟨_, text, position⟩, role⟩
  obtain rfl : _ = TokenKind.closeBrace := kind
  exact ⟨by simp [opensBlock, next, braceOpensBlock, Token.categoryAfter, Token.category],
    by simp [next, Token.endsOperand, Token.categoryAfter, Token.category]⟩

theorem Reads.closesBlock_inside {inner : List Lexeme} {opener : Lexeme}
    (reads : context.Reads (front ++ opener :: inner)) (opens : opener.category = .leftBrace)
    (matched : Braced 0 inner) :
    (context.after ((front ++ opener :: inner).map Lexeme.token)).closesBlock =
      (context.after (front.map Lexeme.token)).opensBlock := by
  rw [closesBlock, reads.blocks_inside opens matched]
  rfl

/-- A block ends an operand where a brace in its place would open no block, and otherwise a brace
behind it opens one too. -/
theorem Reads.behind_block (reads : context.Reads (front ++ block)) (isBlock : IsBlock block) :
    (context.after ((front ++ block).map Lexeme.token)).opensBlock =
        (context.after (front.map Lexeme.token)).opensBlock ∧
      (context.after ((front ++ block).map Lexeme.token)).afterOperand =
        !(context.after (front.map Lexeme.token)).opensBlock := by
  cases isBlock with
  | @braces opener closer inner opens closes matched =>
    rw [append_group] at reads ⊢
    rw [← reads.split.1.closesBlock_inside opens matched]
    exact reads.behind_closer closes

/-- Behind a lexeme and a block the role of the lexeme decides. -/
theorem Reads.behind_introduced {intro : Lexeme}
    (reads : context.Reads (front ++ intro :: block)) (isBlock : IsBlock block)
    (noCloser : intro.category ≠ .rightBrace) :
    (context.after ((front ++ intro :: block).map Lexeme.token)).opensBlock =
        braceOpensBlock (some intro.category) false ∧
      (context.after ((front ++ intro :: block).map Lexeme.token)).afterOperand =
        !braceOpensBlock (some intro.category) false := by
  have same : front ++ intro :: block = (front ++ [intro]) ++ block := by
    rw [List.append_assoc, List.singleton_append]
  rw [same] at reads ⊢
  rw [← reads.split.1.opensBlock_other noCloser]
  exact reads.behind_block isBlock

/-- The stack and the lexemes agree on whether a brace would open a block. -/
theorem Reads.opensBlock_of_stack {front : List Lexeme} (reads : Context.start.Reads front)
    (opens : (Context.start.after (front.map Lexeme.token)).opensBlock = true) :
    OpensBlock front := by
  rcases List.eq_nil_or_concat front with rfl | ⟨front, last, rfl⟩
  · exact .start
  · rw [List.concat_eq_append] at reads opens ⊢
    by_cases closes : last.category = .rightBrace
    · rw [(reads.behind_closer closes).1] at opens
      by_cases held : (Context.start.after (front.map Lexeme.token)).blocks = []
      · apply OpensBlock.unmatched closes
        rintro before opener inner rfl opens' matched
        rw [reads.split.1.blocks_inside opens' matched] at held
        contradiction
      · obtain ⟨before, opener, inner, rfl, opens', matched⟩ := reads.split.1.partner held
        rw [reads.split.1.closesBlock_inside opens' matched] at opens
        have behind := opensBlock_of_stack reads.split.1.split.1 opens
        have whole := OpensBlock.matched opens' closes matched behind
        rwa [append_group] at whole
    · rw [reads.opensBlock_other closes] at opens
      exact .role closes opens
termination_by front.length

theorem Reads.stack_of_opensBlock {front : List Lexeme} (opens : OpensBlock front)
    (reads : Context.start.Reads front) :
    (Context.start.after (front.map Lexeme.token)).opensBlock = true := by
  induction opens with
  | start => rfl
  | role noCloser role => rw [reads.opensBlock_other noCloser, role]
  | @matched front inner opener closer opens closes matched _ ih =>
    rw [append_group] at reads ⊢
    rw [(reads.behind_closer closes).1, reads.split.1.closesBlock_inside opens matched]
    exact ih reads.split.1.split.1
  | @unmatched front closer closes alone =>
    rw [(reads.behind_closer closes).1, closesBlock]
    by_cases held : (Context.start.after (front.map Lexeme.token)).blocks = []
    · rw [held]
      rfl
    · obtain ⟨before, opener, inner, same, opens, matched⟩ := reads.split.1.partner held
      exact absurd matched (alone before opener inner same opens)

/-- A closing brace ends no operand exactly where a further brace would open a block. -/
theorem Reads.afterOperand_iff {front : List Lexeme} {closer : Lexeme}
    (reads : Context.start.Reads (front ++ [closer])) (closes : closer.category = .rightBrace) :
    (Context.start.after ((front ++ [closer]).map Lexeme.token)).afterOperand = false ↔
      OpensBlock (front ++ [closer]) := by
  have behind := reads.behind_closer closes
  rw [behind.2, ← behind.1, Bool.not_eq_false']
  exact ⟨reads.opensBlock_of_stack, fun opens => stack_of_opensBlock opens reads⟩

/-! ## What is read behind -/

/-- Whether a slash here begins a pattern, a percent sign the name of a hash and a dot a number. -/
structure BeginsOperand (context : Context) : Prop where
  slash (reader : Reader) : ∃ (item : Scanned) (after : Reader),
    reader.scan context '/' = some (item, after) ∧ (item = reader.fault .unterminatedRegex ∨
      ∃ (flags : String) (text : List Char), item = reader.token (.regex flags) text)
  percent {reader : Reader} {c : Char} {rest : List Char}
    (unread : reader.unread = '%' :: c :: rest) (named : isNameStart c = true) :
    ∃ (name : List Char) (after : Reader),
      reader.scan context '%' = some (reader.token (.var .hash) name, after)
  dot {reader : Reader} {c : Char} {rest : List Char}
    (unread : reader.unread = '.' :: c :: rest) (digit : c.isDigit = true) :
    ∃ (text : List Char) (after : Reader),
      reader.scan context '.' = some (reader.token .number text, after)

/-- Behind an operand a slash divides; elsewhere what could divide begins an operand. -/
theorem beginsOperand_iff {context : Context} :
    context.BeginsOperand ↔ context.afterOperand = false := by
  constructor
  · intro begins
    rcases operand : context.afterOperand with _ | _
    · rfl
    · obtain ⟨item, after, read, ends⟩ := begins.slash (.start ['/'])
      have divides : (Reader.start ['/']).scan context '/' =
          some ((Reader.start ['/']).operator) := by
        simp [Reader.scan, operand, isNameStart]
      have spelled : (Reader.start ['/']).operator.1 = .ok ⟨.operator, "/", .start⟩ := by
        rfl
      rw [divides] at read
      rw [Option.some.inj read] at spelled
      rcases ends with rfl | ⟨flags, text, rfl⟩
      · contradiction
      · simp [Reader.token] at spelled
  · intro fresh
    refine ⟨fun reader => ?_, fun {reader c rest} unread named => ?_,
      fun {reader c rest} unread digit => ?_⟩
    · have reading : reader.scan context '/' = some (reader.pattern (reader.skip 1) '/') := by
        simp [Reader.scan, fresh, isNameStart]
      refine ⟨_, _, reading, ?_⟩
      split
      · exact .inr ⟨_, _, rfl⟩
      · exact .inl rfl
    · have reading : reader.scan context '%' = some (reader.sigil .hash) := by
        simp [Reader.scan, fresh, isNameStart]
      have next : (reader.look 3).peek? 1 = some c := by
        simp [Reader.peek?, Reader.look, unread]
      rw [reading]
      simp only [Reader.sigil, next, Option.any_some, named, ↓reduceIte]
      exact ⟨_, _, rfl⟩
    · have next : (reader.look 2).peek? 1 = some c := by
        simp [Reader.peek?, Reader.look, unread]
      have reading : reader.scan context '.' = some ((reader.look 2).numberToken) := by
        simp [Reader.scan, fresh, isNameStart, next, digit]
      exact ⟨_, _, reading⟩

end Context

end SigilScript
