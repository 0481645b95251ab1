import SigilScript.Program

/-! # Reading a stream lazily

A stream of characters may go on forever. Each call for a statement pulls only what the statement
needs, so its answer is settled as soon as it was found without seeing the end of a finite
beginning of the stream: the rest cannot change it. An endless stream is read through longer and
longer beginnings until that is so.
-/

namespace SigilScript

/-- What a call for a statement answers, with the reader as the call leaves it. -/
structure Answer where
  statement : Option Node
  reader : Reader
deriving Repr, Inhabited

/-- The statements of a text with the number of items that were asked for to find each. -/
def askedStatements (items : List Classified) : List (Node × Nat) :=
  (piecesOf items).filterMap fun piece => piece.node?.map fun node => (node, piece.asked)

/-- The answers of the first `calls` calls on a text; once there is nothing left, a call answers
nothing and pulls nothing. -/
def answers (text : List Char) (calls : Nat) : List Answer :=
  let trace := scanTrace text
  let readers := trace.map fun call => call.2.reader
  let final := readers.getLastD (.start text)
  let settled (entry : Node × Nat) : Answer :=
    ⟨some entry.1, readers.getD (entry.2 - 1) final⟩
  let found := (askedStatements (classifyAll (trace.filterMap Prod.fst))).map settled
  let nothing : Answer := ⟨none, final⟩
  (found ++ List.replicate calls nothing).take calls

/-- A finite text, or a text repeated forever. -/
structure Stream where
  unit : List Char
  endless : Bool
deriving DecidableEq, Repr, Inhabited

namespace Stream

/-- A beginning of the stream that repeats its text at least `rounds` times, or all of it. -/
def beginning (stream : Stream) (rounds : Nat) : List Char :=
  if stream.endless then (List.replicate rounds stream.unit).flatten else stream.unit

/-- Whether a beginning of the stream may be followed by more. -/
def goesOn (stream : Stream) : Bool := stream.endless && !stream.unit.isEmpty

/-- The answers of the first `calls` calls. The beginning that is read doubles, `doublings` times
at most, for as long as a call sees its end. -/
def answersWithin (stream : Stream) (calls : Nat) : Nat → Nat → List Answer
  | 0, rounds => answers (stream.beginning rounds) calls
  | doublings + 1, rounds =>
    let found := answers (stream.beginning rounds) calls
    if stream.goesOn && found.any fun answer => answer.reader.ended then
      stream.answersWithin calls doublings (2 * rounds)
    else found

/-- The answers of the first `calls` calls on a stream whose statements are settled by a beginning
of moderate length. -/
def answers (stream : Stream) (calls : Nat) : List Answer :=
  stream.answersWithin calls 24 (calls + 1)

end Stream

end SigilScript
