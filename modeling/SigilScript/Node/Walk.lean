import SigilScript.Node.Children

/-! # Walking trees

The walk over a tree that follows its children, and the faults that a tree holds anywhere. The
faults are collected part by part, so that no kind of tree can hide one.
-/

namespace SigilScript

namespace Node

/-- Every tree inside a tree with its level: the tree itself, then what its children hold. -/
def outline (level : Nat) (node : Node) : List (Nat × Node) :=
  (level, node) :: node.children.attach.flatMap fun child => outline (level + 1) child.val
termination_by node
decreasing_by exact sizeOf_lt_of_mem_children child.property

mutual

/-- The faults that a tree holds, in the order of its parts. -/
def faults : Node → List SyntaxFault
  | .number _ | .string .. | .boolean _ | .var .. | .bareword _ | .jump .. | .regex .. => []
  | .error fault => [fault]
  | .binaryOp _ left right => left.faults ++ right.faults
  | .unaryOp _ operand _ => operand.faults
  | .ternary condition whenTrue whenFalse =>
    condition.faults ++ whenTrue.faults ++ whenFalse.faults
  | .declaration _ targets initializer => faultsOfAll targets ++ faultsOfOption initializer
  | .assignment _ target value => target.faults ++ value.faults
  | .conditional _ condition body clauses otherwise =>
    condition.faults ++ faultsOfAll body ++ faultsOfClauses clauses ++ faultsOfBlock otherwise
  | .whileLoop _ _ condition body => condition.faults ++ faultsOfAll body
  | .foreachLoop _ _ holder iterable body =>
    faultsOfOption holder ++ iterable.faults ++ faultsOfAll body
  | .forLoop _ init condition step body =>
    faultsOfOption init ++ faultsOfOption condition ++ faultsOfOption step ++ faultsOfAll body
  | .block _ body => faultsOfAll body
  | .doBlock body => faultsOfAll body
  | .call _ args => faultsOfAll args
  | .codeCall target args => target.faults ++ faultsOfAll args
  | .sub _ params body => faultsOfAll params ++ faultsOfAll body
  | .parameter holder default => holder.faults ++ faultsOfOption default
  | .returned value => faultsOfOption value
  | .output _ filehandle args => faultsOfOption filehandle ++ faultsOfAll args
  | .alarm _ args => faultsOfAll args
  | .collection _ items => faultsOfAll items
  | .access _ base index => base.faults ++ index.faults
  | .dereference _ target => target.faults
  | .postfixDeref base _ => base.faults
  | .postfixSlice base _ indices => base.faults ++ indices.faults
  | .methodCall invocant _ args => invocant.faults ++ faultsOfAll args
  | .classDecl _ _ _ body => faultsOfBlock body
  | .fieldDecl holder _ default => holder.faults ++ faultsOfOption default
  | .methodDecl _ params body => faultsOfAll params ++ faultsOfAll body
  | .packageDecl _ _ body => faultsOfBlock body
  | .useDecl _ _ _ imports => faultsOfAll imports
  | .require target => target.faults
  | .tryBlock body handler final =>
    faultsOfAll body ++ faultsOfHandler handler ++ faultsOfBlock final
  | .topic _ head body => head.faults ++ faultsOfAll body
  | .defaultBlock body => faultsOfAll body
  | .patternMatch _ target pattern => target.faults ++ pattern.faults

/-- The faults of several trees, one tree after the other. -/
def faultsOfAll : List Node → List SyntaxFault
  | [] => []
  | node :: nodes => node.faults ++ faultsOfAll nodes

/-- The faults of a part that may be absent. -/
def faultsOfOption : Option Node → List SyntaxFault
  | none => []
  | some node => node.faults

/-- The faults of a block that may be absent. -/
def faultsOfBlock : Option (List Node) → List SyntaxFault
  | none => []
  | some body => faultsOfAll body

/-- The faults of further conditions and their blocks. -/
def faultsOfClauses : List (Clause Node) → List SyntaxFault
  | [] => []
  | ⟨condition, body⟩ :: clauses =>
    condition.faults ++ faultsOfAll body ++ faultsOfClauses clauses

/-- The faults of a handler that may be absent. -/
def faultsOfHandler : Option (Handler Node) → List SyntaxFault
  | none => []
  | some ⟨holder, body⟩ => faultsOfOption holder ++ faultsOfAll body

end

/-- Whether a tree holds no fault. -/
def isSound (node : Node) : Bool := node.faults.isEmpty

end Node

end SigilScript
