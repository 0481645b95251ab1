import SigilScript.Lexeme
import SigilScript.Node.Walk

/-! # Moving faults and lexemes

A tree holds places only in its faults. Moving a tree applies a function to each of those places
and changes nothing else; moving a lexeme does the same to the place of its token. These are the
two sides of every statement that reading does not depend on where a text stands.
-/

namespace SigilScript

/-- The same fault in another place. -/
def ScanFault.moved (move : Position → Position) (fault : ScanFault) : ScanFault :=
  { fault with position := move fault.position }

/-- The same fault in another place. -/
def SyntaxFault.moved (move : Position → Position) (fault : SyntaxFault) : SyntaxFault :=
  { fault with position := move fault.position }

/-- The same token in another place. -/
def Token.moved (move : Position → Position) (token : Token) : Token :=
  { token with position := move token.position }

/-- The same lexeme in another place. -/
def Lexeme.moved (move : Position → Position) (lexeme : Lexeme) : Lexeme :=
  { lexeme with token := lexeme.token.moved move }

/-- A clause whose trees are mapped. -/
def Clause.map {Tree Image : Type} (f : Tree → Image) (clause : Clause Tree) : Clause Image :=
  ⟨f clause.condition, clause.body.map f⟩

/-- A handler whose trees are mapped. -/
def Handler.map {Tree Image : Type} (f : Tree → Image) (handler : Handler Tree) : Handler Image :=
  ⟨handler.holder.map f, handler.body.map f⟩

namespace Node

mutual

/-- The same tree with every fault moved. -/
def moved (move : Position → Position) : Node → Node
  | .number spelling => .number spelling
  | .string value interpolated => .string value interpolated
  | .boolean value => .boolean value
  | .var sigil name => .var sigil name
  | .bareword name => .bareword name
  | .jump kind label => .jump kind label
  | .regex pattern flags => .regex pattern flags
  | .error fault => .error (fault.moved move)
  | .binaryOp op left right => .binaryOp op (left.moved move) (right.moved move)
  | .unaryOp op operand trailing => .unaryOp op (operand.moved move) trailing
  | .ternary condition whenTrue whenFalse =>
    .ternary (condition.moved move) (whenTrue.moved move) (whenFalse.moved move)
  | .declaration declarator targets initializer =>
    .declaration declarator (movedAll move targets) (movedOption move initializer)
  | .assignment op target value => .assignment op (target.moved move) (value.moved move)
  | .conditional polarity condition body clauses otherwise =>
    .conditional polarity (condition.moved move) (movedAll move body)
      (movedClauses move clauses) (movedBlock move otherwise)
  | .whileLoop polarity label condition body =>
    .whileLoop polarity label (condition.moved move) (movedAll move body)
  | .foreachLoop label declarator holder iterable body =>
    .foreachLoop label declarator (movedOption move holder) (iterable.moved move)
      (movedAll move body)
  | .forLoop label init condition step body =>
    .forLoop label (movedOption move init) (movedOption move condition) (movedOption move step)
      (movedAll move body)
  | .block label body => .block label (movedAll move body)
  | .doBlock body => .doBlock (movedAll move body)
  | .call name args => .call name (movedAll move args)
  | .codeCall target args => .codeCall (target.moved move) (movedAll move args)
  | .sub name params body => .sub name (movedAll move params) (movedAll move body)
  | .parameter holder default => .parameter (holder.moved move) (movedOption move default)
  | .returned value => .returned (movedOption move value)
  | .output kind filehandle args =>
    .output kind (movedOption move filehandle) (movedAll move args)
  | .alarm kind args => .alarm kind (movedAll move args)
  | .collection kind items => .collection kind (movedAll move items)
  | .access kind base index => .access kind (base.moved move) (index.moved move)
  | .dereference sigil target => .dereference sigil (target.moved move)
  | .postfixDeref base sigil => .postfixDeref (base.moved move) sigil
  | .postfixSlice base sigil indices =>
    .postfixSlice (base.moved move) sigil (indices.moved move)
  | .methodCall invocant method args =>
    .methodCall (invocant.moved move) method (movedAll move args)
  | .classDecl name version parent body => .classDecl name version parent (movedBlock move body)
  | .fieldDecl holder attributes default =>
    .fieldDecl (holder.moved move) attributes (movedOption move default)
  | .methodDecl name params body =>
    .methodDecl name (movedAll move params) (movedAll move body)
  | .packageDecl name version body => .packageDecl name version (movedBlock move body)
  | .useDecl negated module version imports =>
    .useDecl negated module version (movedAll move imports)
  | .require target => .require (target.moved move)
  | .tryBlock body handler final =>
    .tryBlock (movedAll move body) (movedHandler move handler) (movedBlock move final)
  | .topic kind head body => .topic kind (head.moved move) (movedAll move body)
  | .defaultBlock body => .defaultBlock (movedAll move body)
  | .patternMatch op target pattern =>
    .patternMatch op (target.moved move) (pattern.moved move)

/-- Several trees, moved. -/
def movedAll (move : Position → Position) : List Node → List Node
  | [] => []
  | node :: nodes => node.moved move :: movedAll move nodes

/-- A part that may be absent, moved. -/
def movedOption (move : Position → Position) : Option Node → Option Node
  | none => none
  | some node => some (node.moved move)

/-- A block that may be absent, moved. -/
def movedBlock (move : Position → Position) : Option (List Node) → Option (List Node)
  | none => none
  | some body => some (movedAll move body)

/-- Further conditions with their blocks, moved. -/
def movedClauses (move : Position → Position) : List (Clause Node) → List (Clause Node)
  | [] => []
  | ⟨condition, body⟩ :: clauses =>
    ⟨condition.moved move, movedAll move body⟩ :: movedClauses move clauses

/-- A handler that may be absent, moved. -/
def movedHandler (move : Position → Position) : Option (Handler Node) → Option (Handler Node)
  | none => none
  | some ⟨holder, body⟩ => some ⟨movedOption move holder, movedAll move body⟩

end

variable {move : Position → Position}

@[simp] theorem movedAll_eq_map (nodes : List Node) :
    movedAll move nodes = nodes.map (moved move) := by
  induction nodes with
  | nil => rfl
  | cons node nodes ih => simp only [movedAll, ih, List.map_cons]

@[simp] theorem movedOption_eq_map (part : Option Node) :
    movedOption move part = part.map (moved move) := by
  cases part <;> rfl

@[simp] theorem movedBlock_eq_map (body : Option (List Node)) :
    movedBlock move body = body.map (List.map (moved move)) := by
  cases body with
  | none => rfl
  | some nodes => simp only [movedBlock, movedAll_eq_map, Option.map_some]

@[simp] theorem movedClauses_eq_map (clauses : List (Clause Node)) :
    movedClauses move clauses = clauses.map (Clause.map (moved move)) := by
  induction clauses with
  | nil => rfl
  | cons clause clauses ih =>
    rcases clause with ⟨condition, body⟩
    simp only [movedClauses, ih, movedAll_eq_map, List.map_cons, Clause.map]

@[simp] theorem movedHandler_eq_map (handler : Option (Handler Node)) :
    movedHandler move handler = handler.map (Handler.map (moved move)) := by
  rcases handler with _ | ⟨holder, body⟩
  · rfl
  · simp only [movedHandler, movedAll_eq_map, movedOption_eq_map, Option.map_some, Handler.map]

mutual

/-- A tree that is moved nowhere is the tree itself. -/
theorem moved_id : ∀ node : Node, node.moved id = node
  | .number _ | .string .. | .boolean _ | .var .. | .bareword _ | .jump .. | .regex ..
  | .error _ => rfl
  | .binaryOp _ left right | .assignment _ left right | .patternMatch _ left right
  | .access _ left right | .postfixSlice left _ right => by
    rw [moved, moved_id left, moved_id right]
  | .unaryOp _ operand _ | .dereference _ operand | .postfixDeref operand _
  | .require operand => by rw [moved, moved_id operand]
  | .ternary condition whenTrue whenFalse => by
    rw [moved, moved_id condition, moved_id whenTrue, moved_id whenFalse]
  | .declaration _ targets initializer => by
    rw [moved, movedAll_id targets, movedOption_id initializer]
  | .conditional _ condition body clauses otherwise => by
    rw [moved, moved_id condition, movedAll_id body, movedClauses_id clauses,
      movedBlock_id otherwise]
  | .whileLoop _ _ condition body | .topic _ condition body | .codeCall condition body
  | .methodCall condition _ body => by
    rw [moved, moved_id condition, movedAll_id body]
  | .foreachLoop _ _ holder iterable body => by
    rw [moved, movedOption_id holder, moved_id iterable, movedAll_id body]
  | .forLoop _ init condition step body => by
    rw [moved, movedOption_id init, movedOption_id condition, movedOption_id step,
      movedAll_id body]
  | .block _ body | .doBlock body | .call _ body | .alarm _ body | .collection _ body
  | .useDecl _ _ _ body | .defaultBlock body => by rw [moved, movedAll_id body]
  | .sub _ params body | .methodDecl _ params body => by
    rw [moved, movedAll_id params, movedAll_id body]
  | .parameter holder default | .fieldDecl holder _ default => by
    rw [moved, moved_id holder, movedOption_id default]
  | .returned value => by rw [moved, movedOption_id value]
  | .output _ filehandle args => by rw [moved, movedOption_id filehandle, movedAll_id args]
  | .classDecl _ _ _ body | .packageDecl _ _ body => by rw [moved, movedBlock_id body]
  | .tryBlock body handler final => by
    rw [moved, movedAll_id body, movedHandler_id handler, movedBlock_id final]

theorem movedAll_id : ∀ nodes : List Node, movedAll id nodes = nodes
  | [] => rfl
  | node :: nodes => by rw [movedAll, moved_id node, movedAll_id nodes]

theorem movedOption_id : ∀ part : Option Node, movedOption id part = part
  | none => rfl
  | some node => by rw [movedOption, moved_id node]

theorem movedBlock_id : ∀ body : Option (List Node), movedBlock id body = body
  | none => rfl
  | some nodes => by rw [movedBlock, movedAll_id nodes]

theorem movedClauses_id : ∀ clauses : List (Clause Node), movedClauses id clauses = clauses
  | [] => rfl
  | ⟨condition, body⟩ :: clauses => by
    rw [movedClauses, moved_id condition, movedAll_id body, movedClauses_id clauses]

theorem movedHandler_id : ∀ handler : Option (Handler Node), movedHandler id handler = handler
  | none => rfl
  | some ⟨holder, body⟩ => by rw [movedHandler, movedOption_id holder, movedAll_id body]

end

/-! ## Trees as they are built -/

@[simp] theorem moved_plain (value : String) : (plain value).moved move = plain value := rfl

@[simp] theorem moved_fault (cause : SyntaxCause) (position : Position) :
    (fault cause position).moved move = fault cause (move position) := rfl

@[simp] theorem moved_list (items : List Node) :
    (list items).moved move = list (items.map (moved move)) := by
  simp only [list, moved, movedAll_eq_map]

@[simp] theorem moved_leading (op : String) (operand : Node) :
    (leading op operand).moved move = leading op (operand.moved move) := rfl

@[simp] theorem moved_trailing (op : String) (operand : Node) :
    (trailing op operand).moved move = trailing op (operand.moved move) := rfl

@[simp] theorem moved_declare (declarator : String) (targets : List Node) :
    (declare declarator targets).moved move =
      declare declarator (targets.map (moved move)) := by
  simp only [declare, moved, movedAll_eq_map, movedOption_eq_map, Option.map_none]

@[simp] theorem moved_binary (op : String) (left right : Node) :
    (binary op left right).moved move = binary op (left.moved move) (right.moved move) := by
  simp only [binary]
  split
  · rfl
  · split <;> rfl

@[simp] theorem moved_conditionalOf (polarity : Polarity) (condition : Node) (body : List Node) :
    (conditionalOf polarity condition body).moved move =
      conditionalOf polarity (condition.moved move) (body.map (moved move)) := by
  simp only [conditionalOf, moved, movedAll_eq_map, movedClauses_eq_map, movedBlock_eq_map,
    List.map_nil, Option.map_none]

@[simp] theorem moved_labelled (node : Node) (label : String) :
    (node.labelled label).moved move = (node.moved move).labelled label := by
  cases node <;> rfl

end Node

@[simp] theorem Lexeme.moved_id (lexeme : Lexeme) : lexeme.moved id = lexeme := rfl

@[simp] theorem Lexeme.map_moved_id (lexemes : List Lexeme) :
    lexemes.map (Lexeme.moved id) = lexemes :=
  List.map_id lexemes

end SigilScript
