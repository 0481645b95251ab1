import SigilScript.Proofs.Node.Faults

/-! # Well-formed trees

Some kinds of trees promise more than their parts: an operation names an operator that the kind
is for, a slice is taken of what carries the sigil of its container, a parameter holds a variable
and stands in a signature. A tree fits when it keeps the promise of its own kind, and is well
formed when everything inside it fits.
-/

namespace SigilScript

namespace Node

/-- Whether a tree is a parameter. -/
def isParameter : Node → Bool
  | .parameter .. => true
  | _ => false

/-- The parameters of a function or of a method. -/
def signature : Node → List Node
  | .sub _ params _ | .methodDecl _ params _ => params
  | _ => []

/-- The children of a tree that do not stand in its signature. -/
def unsigned : Node → List Node
  | .sub _ _ body | .methodDecl _ _ body => body
  | other => other.children

/-- A variable or a dereference with this sigil. -/
def Carries (sigil : Sigil) (tree : Node) : Prop :=
  (∃ name, tree = .var sigil name) ∨ ∃ target, tree = .dereference sigil target

/-- What a tree's kind asks of its operator, or of the part that the tree is about. -/
def FitsKind : Node → Prop
  | .binaryOp op _ _ => (binding? op).isSome = true ∧ isAssignment op = false ∧ op ∉ ["=~", "!~"]
  | .assignment op _ _ => isAssignment op = true
  | .patternMatch op _ _ => op ∈ ["=~", "!~"]
  | .unaryOp op operand true =>
    op ∈ ["++", "--"] ∧ operand.kindName ∈
      ["Variable", "ArrayAccess", "HashAccess", "Dereference", "PostfixDeref"]
  | .parameter holder _ => ∃ sigil name, holder = .var sigil name
  | .access .arraySlice base _ => base.Carries .array
  | .access .hashSlice base _ => base.Carries .hash
  | _ => True

/-- A tree keeps the promise of its kind, its signature holds parameters and faults only, and
there is no parameter among its other children. -/
structure Fits (tree : Node) : Prop where
  kind : tree.FitsKind
  signed : ∀ part ∈ tree.signature, part.isParameter = true ∨ part.isError = true
  elsewhere : ∀ part ∈ tree.unsigned, part.isParameter = false

/-- Everything inside a tree fits. -/
def WellFormed (tree : Node) : Prop := ∀ part : Node, part.Inside tree → part.Fits

/-- A well-formed tree that may stand anywhere but in a signature. -/
structure Formed (tree : Node) : Prop where
  other : tree.isParameter = false
  wellFormed : tree.WellFormed

/-- A well-formed tree that may stand in a signature. -/
structure Signed (tree : Node) : Prop where
  either : tree.isParameter = true ∨ tree.isError = true
  wellFormed : tree.WellFormed

/-- Trees that are all formed. -/
def AllFormed (trees : List Node) : Prop := ∀ tree ∈ trees, tree.Formed

variable {tree left right : Node} {trees more : List Node}

/-- The children of a tree are its signature and the others. -/
theorem children_eq_signature_append (tree : Node) :
    tree.children = tree.signature ++ tree.unsigned := by
  cases tree <;> rfl

theorem wellFormed_of_children (fits : tree.Fits)
    (parts : ∀ child ∈ tree.children, child.WellFormed) :
    tree.WellFormed := by
  intro part inside
  cases inside with
  | here => exact fits
  | child member deeper => exact parts _ member part deeper

/-! ## Several trees -/

namespace AllFormed

theorem nil : AllFormed [] := fun _ member => absurd member List.not_mem_nil

theorem cons (first : tree.Formed) (others : AllFormed trees) : AllFormed (tree :: trees) :=
  List.forall_mem_cons.mpr ⟨first, others⟩

theorem single (alone : tree.Formed) : AllFormed [tree] := nil.cons alone

theorem append (first : AllFormed trees) (second : AllFormed more) : AllFormed (trees ++ more) :=
  List.forall_mem_append.mpr ⟨first, second⟩

end AllFormed

/-! ## One tree of its parts -/

namespace Formed

/-- A tree is formed of its signature and of its other children. -/
theorem signed (other : tree.isParameter = false) (kind : tree.FitsKind)
    (params : ∀ part ∈ tree.signature, part.Signed) (parts : AllFormed tree.unsigned) :
    tree.Formed := by
  refine ⟨other, wellFormed_of_children ⟨kind, ?_, ?_⟩ ?_⟩
  · intro part member
    exact (params part member).either
  · intro part member
    exact (parts part member).other
  · intro child member
    rw [children_eq_signature_append] at member
    rcases List.mem_append.mp member with member | member
    · exact (params child member).wellFormed
    · exact (parts child member).wellFormed

/-- A tree without a signature is formed of its children. -/
theorem node (other : tree.isParameter = false) (kind : tree.FitsKind)
    (plain : tree.signature = []) (parts : AllFormed tree.children) : tree.Formed := by
  rw [children_eq_signature_append, plain, List.nil_append] at parts
  refine signed other kind ?_ parts
  rw [plain]
  exact fun _ member => absurd member List.not_mem_nil

/-- A formed tree is formed of formed children. -/
theorem children (formed : tree.Formed) (plain : tree.signature = []) :
    AllFormed tree.children := by
  have fits := formed.wellFormed tree .here
  intro child member
  refine ⟨fits.elsewhere child ?_, fun part inside => formed.wellFormed part (.child member inside)⟩
  rwa [children_eq_signature_append, plain, List.nil_append] at member

theorem error (fault : SyntaxFault) : (Node.error fault).Formed := node rfl trivial rfl .nil

theorem var (sigil : Sigil) (name : String) : (Node.var sigil name).Formed :=
  node rfl trivial rfl .nil

theorem binary {op : String} (binds : (binding? op).isSome = true) (first : left.Formed)
    (second : right.Formed) : (Node.binary op left right).Formed := by
  have parts : AllFormed [left, right] := .cons first (.single second)
  simp only [Node.binary]
  split
  · next assigns => exact node rfl assigns rfl parts
  · next loose =>
    split
    · next matching => exact node rfl (by simpa [FitsKind] using matching) rfl parts
    · next operation =>
      have kind : (Node.binaryOp op left right).FitsKind :=
        ⟨binds, Bool.eq_false_iff.mpr loose, by simpa using operation⟩
      exact node rfl kind rfl parts

/-- A label changes nothing in the parts of a tree. -/
theorem labelled (formed : tree.Formed) (label : String) : (tree.labelled label).Formed := by
  cases tree with
  | whileLoop => exact node rfl trivial rfl (formed.children rfl)
  | foreachLoop => exact node rfl trivial rfl (formed.children rfl)
  | forLoop => exact node rfl trivial rfl (formed.children rfl)
  | block => exact node rfl trivial rfl (formed.children rfl)
  | _ => exact formed

end Formed

/-! ## Trees of a signature -/

theorem Signed.error (fault : SyntaxFault) : (Node.error fault).Signed :=
  ⟨.inr rfl, (Formed.error fault).wellFormed⟩

/-- A parameter holds a variable, and a default if there is one. -/
theorem Signed.parameter (sigil : Sigil) (name : String) {default : Option Node}
    (formed : AllFormed default.toList) : (Node.parameter (.var sigil name) default).Signed := by
  have parts : AllFormed (.var sigil name :: default.toList) := formed.cons (.var sigil name)
  refine ⟨.inl rfl, wellFormed_of_children ⟨⟨sigil, name, rfl⟩, ?_, ?_⟩ ?_⟩
  · exact fun _ member => absurd member List.not_mem_nil
  · intro part member
    exact (parts part member).other
  · intro child member
    exact (parts child member).wellFormed

end Node

end SigilScript
