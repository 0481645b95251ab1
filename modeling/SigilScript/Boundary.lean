import SigilScript.Nesting

/-! # Where statements end

A boundary is offered the lexemes of a statement one by one and says of each whether it belongs
to the statement and whether the statement is then complete. A statement ends at a terminator of
depth zero, at a stray closer, or, when its head carries a block, where that block closes. Chains
such as `if … elsif … else` need one lexeme more to know that they are over.
-/

namespace SigilScript

/-- The answer to one offered lexeme. -/
inductive Offer where
  /-- Part of the statement, which goes on. -/
  | take
  /-- Part of the statement, which is complete with it. -/
  | takeAndEnd
  /-- Not part of the statement, which was complete before it. -/
  | endBefore
deriving DecidableEq, Repr, Inhabited

/-- What may continue a statement after its block has closed. -/
inductive Chain where
  | alone
  /-- Continued by `elsif` and `else`. -/
  | conditional
  /-- Continued by `catch` and `finally`. -/
  | attempt
deriving DecidableEq, Repr, Inhabited

/-- What is known of a statement from its first lexemes. -/
inductive Head where
  /-- Nothing was read yet. -/
  | unknown
  /-- A leading name: a label, a phase block, or an expression. -/
  | word (phaseBlock : Bool)
  /-- A declaration when a name follows, else an anonymous function in an expression. -/
  | sub
  /-- Ends only at a terminator. -/
  | simple
  /-- Ends where its block closes, too. -/
  | blockBearing (chain : Chain)
deriving DecidableEq, Repr, Inhabited

/-- The kind of statement that a lexeme opens. -/
def Lexeme.head (lexeme : Lexeme) : Head :=
  match lexeme.category with
  | .controlKeyword =>
    if lexeme.text ∈ ["if", "unless", "elsif", "else"] then .blockBearing .conditional
    else .blockBearing .alone
  | .leftBrace => .blockBearing .alone
  | .keyword =>
    if lexeme.text ∈ ["try", "catch", "finally"] then .blockBearing .attempt
    else if lexeme.text = "sub" then .sub
    else if lexeme.text ∈
        ["class", "package", "method", "given", "when", "default", "match", "case"] then
      .blockBearing .alone
    else .simple
  | .identifier => .word (lexeme.text = "BEGIN" || lexeme.text = "END")
  | _ => .simple

/-- Whether a lexeme continues a chain whose last block has just closed. -/
def Chain.continuedBy (chain : Chain) (lexeme : Lexeme) : Bool :=
  match chain with
  | .alone => false
  | .conditional =>
    lexeme.category = .controlKeyword && (lexeme.text = "elsif" || lexeme.text = "else")
  | .attempt =>
    lexeme.category = .keyword && (lexeme.text = "catch" || lexeme.text = "finally")

/-- Whether a continuing lexeme is the last that its chain may have. -/
def Lexeme.closesChain (lexeme : Lexeme) : Bool :=
  lexeme.text = "else" || lexeme.text = "finally"

/-- What is known of the statement being collected. -/
structure Boundary where
  head : Head
  depth : Int
  /-- The block of a chain has just closed. -/
  awaiting : Bool
  /-- The last clause of the chain has begun. -/
  chainClosed : Bool
deriving DecidableEq, Repr, Inhabited

namespace Boundary

/-- Nothing was offered yet. -/
def start : Boundary := ⟨.unknown, 0, false, false⟩

/-- Count a lexeme of a statement whose head is settled, and say whether it completes it. -/
def settle (boundary : Boundary) (lexeme : Lexeme) : Offer × Boundary :=
  let counted := { boundary with depth := boundary.depth + lexeme.category.delta }
  if counted.depth < 0 then (.takeAndEnd, counted)
  else if 0 < counted.depth then (.take, counted)
  else
    match lexeme.category, counted.head with
    | .terminator, _ => (.takeAndEnd, counted)
    | .rightBrace, .blockBearing .alone => (.takeAndEnd, counted)
    | .rightBrace, .blockBearing _ =>
      if counted.chainClosed then (.takeAndEnd, counted)
      else (.take, { counted with awaiting := true })
    | _, _ => (.take, counted)

/-- Take a lexeme into the statement, settling its head where the lexeme decides it. -/
def accept (boundary : Boundary) (lexeme : Lexeme) : Offer × Boundary :=
  match boundary.head with
  | .unknown => settle { boundary with head := lexeme.head } lexeme
  | .word phaseBlock =>
    if lexeme.category = .colon then (.take, { boundary with head := .unknown })
    else if phaseBlock && lexeme.category = .leftBrace then
      settle { boundary with head := .blockBearing .alone } lexeme
    else settle { boundary with head := .simple } lexeme
  | .sub =>
    settle { boundary with head := if lexeme.isWord then .blockBearing .alone else .simple } lexeme
  | .simple => settle boundary lexeme
  | .blockBearing _ => settle boundary lexeme

/-- Offer the next lexeme. -/
def offer (boundary : Boundary) (lexeme : Lexeme) : Offer × Boundary :=
  if boundary.awaiting then
    let resumed := { boundary with awaiting := false }
    match boundary.head with
    | .blockBearing chain =>
      if chain.continuedBy lexeme then
        accept { resumed with chainClosed := boundary.chainClosed || lexeme.closesChain } lexeme
      else (.endBefore, resumed)
    | _ => (.endBefore, resumed)
  else accept boundary lexeme

/-- How many of these lexemes belong to the statement being collected. -/
def extent (boundary : Boundary) : List Lexeme → Nat
  | [] => 0
  | lexeme :: rest =>
    match boundary.offer lexeme with
    | (.take, further) => further.extent rest + 1
    | (.takeAndEnd, _) => 1
    | (.endBefore, _) => 0

theorem settle_ne_endBefore (boundary : Boundary) (lexeme : Lexeme) :
    (boundary.settle lexeme).1 ≠ .endBefore := by
  simp only [settle]
  repeat' split
  all_goals simp

theorem accept_ne_endBefore (boundary : Boundary) (lexeme : Lexeme) :
    (boundary.accept lexeme).1 ≠ .endBefore := by
  simp only [accept]
  repeat' split
  all_goals first | exact settle_ne_endBefore _ _ | simp

/-- A statement has at least the lexeme that it begins with. -/
theorem extent_start_pos (lexeme : Lexeme) (rest : List Lexeme) :
    0 < start.extent (lexeme :: rest) := by
  have taken : (start.offer lexeme).1 ≠ .endBefore := accept_ne_endBefore start lexeme
  simp only [extent]
  split
  · omega
  · omega
  · next ended => simp [ended] at taken

end Boundary

/-- The stretches of a list that are statements of their own; the last may be incomplete. -/
def splitStatements (lexemes : List Lexeme) : List (List Lexeme) :=
  match lexemes with
  | [] => []
  | lexeme :: rest =>
    let extent := Boundary.start.extent (lexeme :: rest)
    (lexeme :: rest).take extent :: splitStatements ((lexeme :: rest).drop extent)
termination_by lexemes.length
decreasing_by
  have := Boundary.extent_start_pos lexeme rest
  simp only [List.length_drop, List.length_cons]
  omega

end SigilScript
