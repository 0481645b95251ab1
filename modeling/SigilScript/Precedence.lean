/-! # Binding of binary operators

Each binary operator binds at a level and groups to one side. Higher levels bind tighter; the
prefix operators and the ternary take their operands at fixed levels of the same scale.
-/

namespace SigilScript

/-- The side to which operators of one level group. -/
inductive Associativity where
  | left
  | right
deriving DecidableEq, Repr, Inhabited

/-- How an operator binds. -/
structure Binding where
  level : Nat
  associativity : Associativity
deriving DecidableEq, Repr, Inhabited

/-- The level that a right operand has to reach: grouping to the left asks for a tighter one. -/
def Binding.rightLevel (binding : Binding) : Nat :=
  match binding.associativity with
  | .left => binding.level + 1
  | .right => binding.level

namespace Level

/-- The level that admits every operator. -/
def lowest : Nat := 1

/-- The level of the operand of `not`. -/
def negation : Nat := 3

/-- The level of assignments, and of one element of a comma list. -/
def assignment : Nat := 4

/-- The level of the ternary. -/
def ternary : Nat := 5

/-- The level of the operand of a builtin that takes at most one. -/
def namedUnary : Nat := 13

/-- The level of powers, the only operators that bind tighter than a sign. -/
def power : Nat := 19

end Level

/-- The assignments, plain and compound. -/
def assignmentOperators : List String :=
  ["=", "+=", "-=", "*=", "/=", ".=", "%=", "x=", "**=", "&=", "|=", "^=", "<<=", ">>=", "&&=",
   "||=", "//="]

/-- Whether an operator assigns. -/
def isAssignment (op : String) : Bool := assignmentOperators.contains op

/-- The groups of binary operators that are not assignments, loosest first. -/
def bindingTable : List (List String × Binding) :=
  [(["or", "xor"], ⟨1, .left⟩),
   (["and"], ⟨2, .left⟩),
   (["..", "..."], ⟨6, .left⟩),
   (["||", "//"], ⟨7, .left⟩),
   (["&&"], ⟨8, .left⟩),
   (["|", "^"], ⟨9, .left⟩),
   (["&"], ⟨10, .left⟩),
   (["==", "!=", "<=>", "eq", "ne", "cmp", "~~"], ⟨11, .left⟩),
   (["<", ">", "<=", ">=", "lt", "gt", "le", "ge"], ⟨12, .left⟩),
   (["isa"], ⟨Level.namedUnary, .left⟩),
   (["<<", ">>"], ⟨14, .left⟩),
   (["+", "-", "."], ⟨15, .left⟩),
   (["*", "/", "%", "x"], ⟨16, .left⟩),
   (["=~", "!~"], ⟨17, .left⟩),
   (["**"], ⟨Level.power, .right⟩)]

/-- How a binary operator binds; nothing when the spelling is not one. -/
def binding? (op : String) : Option Binding :=
  if isAssignment op then some ⟨Level.assignment, .right⟩
  else (bindingTable.find? fun row => row.1.contains op).map Prod.snd

end SigilScript
