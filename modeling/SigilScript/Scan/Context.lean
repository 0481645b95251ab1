import SigilScript.Category

/-! # What a token is read after

A slash, a percent sign or a dot means one thing after an operand and another elsewhere. The
context records what decides: the role of the token before, whether it ended an operand, and for
every open brace whether it opened a block. Faults and gaps between tokens do not change it.
-/

namespace SigilScript

/-- What was read before a token. -/
structure Context where
  /-- The role of the token before. -/
  previous : Option Category
  /-- Whether that token ended an operand. -/
  afterOperand : Bool
  /-- For each open brace, the innermost first, whether it opened a block. -/
  blocks : List Bool
  /-- Whether that token is a brace that closed a block. -/
  afterBlock : Bool
deriving DecidableEq, Repr, Inhabited

namespace Context

/-- Nothing was read yet. -/
def start : Context := ⟨none, false, [], false⟩

/-- Whether a closing brace here closes a block; one without a partner does. -/
def closesBlock (context : Context) : Bool := context.blocks.head?.getD true

/-- The context after a token. -/
def next (context : Context) (token : Token) : Context :=
  let category := token.categoryAfter context.previous
  let closedBlock := token.kind = .closeBrace && context.closesBlock
  let blocks :=
    match token.kind with
    | .openBrace => braceOpensBlock context.previous context.afterBlock :: context.blocks
    | .closeBrace => context.blocks.tail
    | _ => context.blocks
  ⟨some category, token.endsOperand category closedBlock, blocks, closedBlock⟩

end Context

end SigilScript
