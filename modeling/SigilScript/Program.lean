import SigilScript.Grammar.Statement
import SigilScript.Node.Walk
import SigilScript.Scan.Scanner

/-! # Programs

A program is read one statement at a time: items are collected until the boundary says that the
statement is complete, and its lexemes become a tree. A scan fault met while a statement is being
collected takes the place of its tree, the first one if there are several. Strict reading refuses
a program with any fault: the first scan fault of the text, or else the first fault of the first
tree that has one.
-/

namespace SigilScript

/-- The lexemes of one statement, as they were collected. -/
structure Piece where
  lexemes : List Lexeme
  /-- The first scan fault met on the way. -/
  fault : Option ScanFault
  /-- How many items had been asked for by then; the end of the items counts as one. -/
  asked : Nat
deriving DecidableEq, Repr, Inhabited

/-- A statement that is being collected. -/
structure Collector where
  boundary : Boundary
  /-- Its lexemes so far, the last one first. -/
  taken : List Lexeme
  fault : Option ScanFault
  asked : Nat
deriving DecidableEq, Repr, Inhabited

namespace Collector

/-- Nothing was collected, after so many items. -/
def start (asked : Nat) : Collector := ⟨.start, [], none, asked⟩

/-- What was collected, as a piece. -/
def piece (collector : Collector) : Piece :=
  ⟨collector.taken.reverse, collector.fault, collector.asked⟩

/-- Take a lexeme, given the boundary's answer: the pieces it completes, and what goes on. -/
def take (collector : Collector) (lexeme : Lexeme) : List Piece × Collector :=
  match collector.boundary.offer lexeme with
  | (.take, boundary) => ([], { collector with boundary, taken := lexeme :: collector.taken })
  | (.takeAndEnd, _) =>
    ([piece { collector with taken := lexeme :: collector.taken }], start collector.asked)
  | (.endBefore, _) =>
    match Boundary.start.offer lexeme with
    | (.take, boundary) => ([collector.piece], ⟨boundary, [lexeme], none, collector.asked⟩)
    | _ => ([collector.piece, ⟨[lexeme], none, collector.asked⟩], start collector.asked)

/-- The pieces that items make. What is left at the end is a piece, unless it is nothing. -/
def pieces (collector : Collector) : List Classified → List Piece
  | [] =>
    if collector.taken.isEmpty && collector.fault.isNone then []
    else [piece { collector with asked := collector.asked + 1 }]
  | .error fault :: items =>
    pieces { collector with
      fault := collector.fault.or (some fault), asked := collector.asked + 1 } items
  | .ok lexeme :: items =>
    let (complete, further) := take { collector with asked := collector.asked + 1 } lexeme
    complete ++ pieces further items

end Collector

/-- The pieces of a stream of items, in order. -/
def piecesOf (items : List Classified) : List Piece := (Collector.start 0).pieces items

/-- The tree of a piece: a scan fault takes its place, and an empty statement has none. -/
def Piece.node? (piece : Piece) : Option Node :=
  match piece.fault with
  | some fault => some (.error fault.inTree)
  | none => parseStatement piece.lexemes

/-- The trees of a stream of items. -/
def parseItems (items : List Classified) : List Node := (piecesOf items).filterMap Piece.node?

/-- The trees of a text. -/
def parse (text : List Char) : List Node := parseItems (classifyAll (scan text))

/-- Why a program is refused. -/
inductive Refusal where
  | scan (fault : ScanFault)
  | tree (fault : SyntaxFault)
deriving DecidableEq, Repr, Inhabited

/-- The first fault of the first tree that has one. -/
def firstFault? (nodes : List Node) : Option SyntaxFault :=
  nodes.findSome? fun node => node.faults.head?

/-- The trees of a text without faults. -/
def parseStrict (text : List Char) : Except Refusal (List Node) :=
  match tokenize text with
  | .error fault => .error (.scan fault)
  | .ok tokens =>
    let nodes := parseItems (classifyAll (tokens.map .ok))
    match firstFault? nodes with
    | some fault => .error (.tree fault)
    | none => .ok nodes

end SigilScript
