import Mathlib.Data.List.Basic
import SigilScript.Proofs.Node.Faults

/-! # Walking with a stack

A tree can also be walked without recursion: a stack holds the trees still to visit, and a visited
tree is replaced by its children, the last one pushed first. What such a walk has still to visit is
always the trees inside those on the stack, each before its children, and a visit takes the first
of them. So a walk that collects faults finds each fault of a tree where the tree holds it, once,
and in the order in which they are listed part by part.
-/

namespace SigilScript

namespace Node

/-! ## Each tree before its children -/

theorem outline_eq (level : Nat) (node : Node) :
    node.outline level = (level, node) :: node.children.flatMap (outline (level + 1)) := by
  rw [outline]
  congr 1
  exact (List.flatMap_subtype fun _ _ => rfl).trans (by simp)

/-- The trees inside a tree, each before its children. -/
def preorder (node : Node) : List Node := (node.outline 0).map Prod.snd

private theorem outline_map_snd (level : Nat) (node : Node) :
    (node.outline level).map Prod.snd = node :: node.children.flatMap preorder := by
  have inside : ∀ child ∈ node.children,
      (child.outline (level + 1)).map Prod.snd = child.preorder := by
    intro child member
    rw [preorder, outline_map_snd (level + 1) child, outline_map_snd 0 child]
  rw [outline_eq, List.map_cons, List.map_flatMap, List.flatMap_congr inside]
termination_by sizeOf node
decreasing_by all_goals exact sizeOf_lt_of_mem_children member

theorem preorder_eq (node : Node) : node.preorder = node :: node.children.flatMap preorder :=
  outline_map_snd 0 node

/-- The faults listed part by part are those met one tree after the other. -/
theorem faults_eq_flatMap_preorder (node : Node) : node.faults = node.preorder.flatMap ownFault := by
  have inside : ∀ child ∈ node.children, child.faults = child.preorder.flatMap ownFault := by
    intro child member
    exact faults_eq_flatMap_preorder child
  rw [faults_eq, preorder_eq, List.flatMap_cons, List.flatMap_assoc, List.flatMap_congr inside]
termination_by sizeOf node
decreasing_by exact sizeOf_lt_of_mem_children member

/-! ## The walk -/

/-- A walk: the faults found so far, and the stack of the trees still to visit, its top first. -/
structure Walk where
  found : List SyntaxFault
  stack : List Node

namespace Walk

/-- A stack with further trees pushed on it, one after the other. -/
def push (stack nodes : List Node) : List Node := nodes.foldl (fun stack node => node :: stack) stack

/-- The trees that a walk has still to visit, in order. -/
def pending (walk : Walk) : List Node := walk.stack.flatMap preorder

/-- A walk that took a tree off its stack: its fault is found, and its children are to visit. -/
def visit (found : List SyntaxFault) (node : Node) (stack : List Node) : Walk where
  found := found ++ node.ownFault
  stack := push stack node.children.reverse

/-- Pushed in reverse, the first tree comes to lie on top. -/
theorem push_reverse (stack nodes : List Node) : push stack nodes.reverse = nodes ++ stack := by
  rw [push, List.foldl_reverse]
  induction nodes with
  | nil => rfl
  | cons node nodes ih => rw [List.foldr_cons, ih, List.cons_append]

/-- A visit takes the first of the trees still to visit. -/
theorem pending_visit (found : List SyntaxFault) (node : Node) (stack : List Node) :
    pending ⟨found, node :: stack⟩ = node :: pending (visit found node stack) := by
  rw [pending, pending, visit, push_reverse, List.flatMap_cons, List.flatMap_append, preorder_eq,
    List.cons_append]

/-- Walk on until nothing is left to visit. -/
def run : Walk → List SyntaxFault
  | ⟨found, []⟩ => found
  | ⟨found, node :: stack⟩ => run (visit found node stack)
termination_by walk => walk.pending.length
decreasing_by
  rw [pending_visit, List.length_cons]
  exact Nat.lt_succ_self _

/-- A walk finds what it found so far and then the faults of the trees still to visit. -/
theorem run_eq (walk : Walk) : walk.run = walk.found ++ walk.pending.flatMap ownFault := by
  induction walk using run.induct with
  | case1 found => rw [run, pending, List.flatMap_nil, List.flatMap_nil, List.append_nil]
  | case2 found node stack ih =>
    rw [run, ih, pending_visit, List.flatMap_cons, visit, List.append_assoc]

end Walk

/-- A walk that starts at a tree finds exactly the faults that the tree holds in any of its parts,
each once, and each tree's own before those of its children. -/
theorem run_walk (node : Node) :
    (Walk.mk [] [node]).run = node.faults ∧ node.faults = node.preorder.flatMap ownFault := by
  constructor
  · rw [Walk.run_eq, Walk.pending, List.flatMap_singleton, faults_eq_flatMap_preorder,
      List.nil_append]
  · exact faults_eq_flatMap_preorder node

end Node

end SigilScript
