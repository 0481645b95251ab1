import SigilScript.Node.Basic

/-! # The children of a tree

The direct parts of a tree that are trees themselves, in the order of the source. A child is
smaller than its tree, so a walk that follows the children ends.
-/

namespace SigilScript

namespace Node

/-- The parts of a further condition, in order. -/
def clauseParts (clause : Clause Node) : List Node := clause.condition :: clause.body

/-- The parts of a handler, in order. -/
def handlerParts (handler : Handler Node) : List Node := handler.holder.toList ++ handler.body

/-- The direct parts of a tree that are trees, in the order of the source. -/
def children : Node → List Node
  | .number _ | .string .. | .boolean _ | .var .. | .bareword _ | .jump .. | .regex ..
  | .error _ => []
  | .binaryOp _ left right => [left, right]
  | .unaryOp _ operand _ => [operand]
  | .ternary condition whenTrue whenFalse => [condition, whenTrue, whenFalse]
  | .declaration _ targets initializer => targets ++ initializer.toList
  | .assignment _ target value => [target, value]
  | .conditional _ condition body clauses otherwise =>
    condition :: body ++ clauses.flatMap clauseParts ++ otherwise.getD []
  | .whileLoop _ _ condition body => condition :: body
  | .foreachLoop _ _ holder iterable body => holder.toList ++ iterable :: body
  | .forLoop _ init condition step body =>
    init.toList ++ condition.toList ++ step.toList ++ body
  | .block _ body | .doBlock body | .defaultBlock body => body
  | .call _ args | .alarm _ args | .collection _ args | .useDecl _ _ _ args => args
  | .codeCall target args => target :: args
  | .sub _ params body | .methodDecl _ params body => params ++ body
  | .parameter holder default | .fieldDecl holder _ default => holder :: default.toList
  | .returned value => value.toList
  | .output _ filehandle args => filehandle.toList ++ args
  | .access _ base index => [base, index]
  | .dereference _ target | .require target => [target]
  | .postfixDeref base _ => [base]
  | .postfixSlice base _ indices => [base, indices]
  | .methodCall invocant _ args => invocant :: args
  | .classDecl _ _ _ body | .packageDecl _ _ body => body.getD []
  | .tryBlock body handler final =>
    body ++ handler.toList.flatMap handlerParts ++ final.getD []
  | .topic _ head body => head :: body
  | .patternMatch _ target pattern => [target, pattern]

/-- Each of the trees is smaller than the bound. -/
def AllBelow (bound : Nat) (nodes : List Node) : Prop :=
  ∀ node ∈ nodes, sizeOf node < bound

namespace AllBelow

variable {bound : Nat}

theorem nil : AllBelow bound [] := by simp [AllBelow]

theorem cons {head : Node} {tail : List Node} (first : sizeOf head < bound)
    (rest : AllBelow bound tail) : AllBelow bound (head :: tail) :=
  List.forall_mem_cons.mpr ⟨first, rest⟩

theorem append {front back : List Node} (before : AllBelow bound front)
    (after : AllBelow bound back) : AllBelow bound (front ++ back) :=
  List.forall_mem_append.mpr ⟨before, after⟩

theorem of_list {nodes : List Node} (fits : sizeOf nodes ≤ bound) : AllBelow bound nodes := by
  intro node member
  have := List.sizeOf_lt_of_mem member
  omega

theorem of_option {part : Option Node} (fits : sizeOf part ≤ bound) :
    AllBelow bound part.toList := by
  cases part with
  | none => exact nil
  | some node =>
    rw [Option.some.sizeOf_spec] at fits
    exact cons (by omega) nil

theorem of_getD {part : Option (List Node)} (fits : sizeOf part ≤ bound) :
    AllBelow bound (part.getD []) := by
  cases part with
  | none => exact nil
  | some nodes =>
    rw [Option.some.sizeOf_spec] at fits
    have below : AllBelow bound nodes := of_list (by omega)
    exact below

theorem of_clauses {clauses : List (Clause Node)} (fits : sizeOf clauses ≤ bound) :
    AllBelow bound (clauses.flatMap clauseParts) := by
  intro node member
  obtain ⟨⟨condition, body⟩, inside, part⟩ := List.mem_flatMap.mp member
  have smaller := List.sizeOf_lt_of_mem inside
  rw [Clause.mk.sizeOf_spec] at smaller
  have below : AllBelow bound (condition :: body) := cons (by omega) (of_list (by omega))
  exact below node part

theorem of_handler {handler : Option (Handler Node)} (fits : sizeOf handler ≤ bound) :
    AllBelow bound (handler.toList.flatMap handlerParts) := by
  match handler with
  | none => exact nil
  | some ⟨holder, body⟩ =>
    rw [Option.some.sizeOf_spec, Handler.mk.sizeOf_spec] at fits
    have below : AllBelow bound (holder.toList ++ body) :=
      (of_option (by omega)).append (of_list (by omega))
    simpa [handlerParts] using below

end AllBelow

/-- The children of a tree are smaller than the tree. -/
theorem allBelow_children (node : Node) : AllBelow (sizeOf node) node.children := by
  cases node with
  | number | string | boolean | var | bareword | jump | regex | error => exact .nil
  | unaryOp | dereference | postfixDeref | require =>
    exact .cons (by simp +arith) .nil
  | binaryOp | assignment | access | postfixSlice | patternMatch =>
    exact .cons (by simp +arith) (.cons (by simp +arith) .nil)
  | ternary =>
    exact .cons (by simp +arith) (.cons (by simp +arith) (.cons (by simp +arith) .nil))
  | block | doBlock | defaultBlock | call | alarm | collection | useDecl =>
    exact .of_list (by simp +arith [children])
  | returned => exact .of_option (by simp +arith)
  | classDecl | packageDecl => exact .of_getD (by simp +arith)
  | whileLoop | codeCall | methodCall | topic =>
    exact .cons (by simp +arith) (.of_list (by simp +arith))
  | parameter | fieldDecl => exact .cons (by simp +arith) (.of_option (by simp +arith))
  | declaration => exact .append (.of_list (by simp +arith)) (.of_option (by simp +arith))
  | sub | methodDecl => exact .append (.of_list (by simp +arith)) (.of_list (by simp +arith))
  | output => exact .append (.of_option (by simp +arith)) (.of_list (by simp +arith))
  | foreachLoop =>
    exact .append (.of_option (by simp +arith))
      (.cons (by simp +arith) (.of_list (by simp +arith)))
  | forLoop =>
    exact .append
      (.append (.append (.of_option (by simp +arith)) (.of_option (by simp +arith)))
        (.of_option (by simp +arith)))
      (.of_list (by simp +arith))
  | conditional =>
    exact .append
      (.append (.cons (by simp +arith) (.of_list (by simp +arith)))
        (.of_clauses (by simp +arith)))
      (.of_getD (by simp +arith))
  | tryBlock =>
    exact .append (.append (.of_list (by simp +arith)) (.of_handler (by simp +arith)))
      (.of_getD (by simp +arith))

/-- A child is smaller than its tree. -/
theorem sizeOf_lt_of_mem_children {node child : Node} (member : child ∈ node.children) :
    sizeOf child < sizeOf node :=
  allBelow_children node child member

end Node

end SigilScript
