import SigilScript.Node.Walk

/-! # Where the faults of a tree stand

The faults of a tree are the fault that it is itself, if it is one, and then those of its children,
one child after the other. So a fault is listed exactly where it stands anywhere inside the tree:
no kind of tree hides one.
-/

namespace SigilScript

namespace Node

/-- One tree is another, or stands inside one of its children. -/
inductive Inside (part : Node) : Node → Prop where
  | here : Inside part part
  | child {node child : Node} : child ∈ node.children → Inside part child → Inside part node

/-- The fault that a tree is, if it is one. -/
def ownFault : Node → List SyntaxFault
  | .error fault => [fault]
  | _ => []

theorem faultsOfAll_eq_flatMap (nodes : List Node) : faultsOfAll nodes = nodes.flatMap faults := by
  induction nodes with
  | nil => rfl
  | cons node nodes ih => rw [faultsOfAll, ih, List.flatMap_cons]

theorem faultsOfOption_eq_flatMap (part : Option Node) :
    faultsOfOption part = part.toList.flatMap faults := by
  cases part with
  | none => rfl
  | some node => exact (List.flatMap_singleton faults node).symm

theorem faultsOfBlock_eq_flatMap (body : Option (List Node)) :
    faultsOfBlock body = (body.getD []).flatMap faults := by
  cases body with
  | none => rfl
  | some nodes => exact faultsOfAll_eq_flatMap nodes

theorem faultsOfClauses_eq_flatMap (clauses : List (Clause Node)) :
    faultsOfClauses clauses = (clauses.flatMap clauseParts).flatMap faults := by
  induction clauses with
  | nil => rfl
  | cons clause clauses ih =>
    rcases clause with ⟨condition, body⟩
    rw [faultsOfClauses, ih, faultsOfAll_eq_flatMap, List.flatMap_cons, List.flatMap_append]
    rfl

theorem faultsOfHandler_eq_flatMap (handler : Option (Handler Node)) :
    faultsOfHandler handler = (handler.toList.flatMap handlerParts).flatMap faults := by
  rcases handler with _ | ⟨holder, body⟩
  · rfl
  · rw [faultsOfHandler, faultsOfOption_eq_flatMap, faultsOfAll_eq_flatMap, Option.toList_some,
      List.flatMap_singleton, handlerParts, List.flatMap_append]

theorem faultsOfAll_append (nodes further : List Node) :
    faultsOfAll (nodes ++ further) = faultsOfAll nodes ++ faultsOfAll further := by
  simp only [faultsOfAll_eq_flatMap, List.flatMap_append]

theorem faults_binary (op : String) (left right : Node) :
    (binary op left right).faults = left.faults ++ right.faults := by
  simp only [binary]
  split
  · rfl
  · split <;> rfl

/-- The walk that lists the faults follows the children. -/
theorem faults_eq (node : Node) : node.faults = node.ownFault ++ node.children.flatMap faults := by
  cases node <;>
    simp only [faults, ownFault, children, faultsOfAll_eq_flatMap, faultsOfOption_eq_flatMap,
      faultsOfBlock_eq_flatMap, faultsOfClauses_eq_flatMap, faultsOfHandler_eq_flatMap,
      List.flatMap_append, List.flatMap_cons, List.flatMap_nil, List.nil_append, List.append_nil,
      List.append_assoc, List.cons_append]

theorem ownFault_eq_nil {tree : Node} (sound : tree.isError = false) : tree.ownFault = [] := by
  cases tree <;> first | rfl | contradiction

/-- The faults of a tree that is none are those of its parts. -/
theorem faults_of_sound {tree : Node} (sound : tree.isError = false) :
    tree.faults = tree.children.flatMap faults := by
  rw [faults_eq, ownFault_eq_nil sound, List.nil_append]

theorem mem_ownFault {node : Node} {fault : SyntaxFault} :
    fault ∈ node.ownFault ↔ node = .error fault := by
  cases node <;> simp [ownFault, eq_comm]

theorem mem_faults {node : Node} {fault : SyntaxFault} :
    fault ∈ node.faults ↔ node = .error fault ∨ ∃ child ∈ node.children, fault ∈ child.faults := by
  rw [faults_eq, List.mem_append, List.mem_flatMap, mem_ownFault]

/-- A fault is listed exactly where it stands inside the tree. -/
theorem mem_faults_iff_inside {node : Node} {fault : SyntaxFault} :
    fault ∈ node.faults ↔ (Node.error fault).Inside node := by
  constructor
  · intro listed
    rcases mem_faults.mp listed with rfl | ⟨child, member, listed⟩
    · exact .here
    · have smaller := sizeOf_lt_of_mem_children member
      exact .child member (mem_faults_iff_inside.mp listed)
  · intro inside
    induction inside with
    | here => exact mem_faults.mpr (.inl rfl)
    | child member _ ih => exact mem_faults.mpr (.inr ⟨_, member, ih⟩)
termination_by sizeOf node

/-- A tree without faults has none inside. -/
theorem faults_eq_nil_iff {node : Node} :
    node.faults = [] ↔ ∀ fault, ¬ (Node.error fault).Inside node := by
  rw [List.eq_nil_iff_forall_not_mem]
  exact forall_congr' fun fault => not_congr mem_faults_iff_inside

end Node

end SigilScript
