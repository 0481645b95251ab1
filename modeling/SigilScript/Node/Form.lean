import SigilScript.Form
import SigilScript.Node.Basic
import SigilScript.Text.Quoted

/-! # Trees as parenthesised forms

Every tree has a form whose head names the kind of tree. Absent parts leave no trace, but for the
clauses of a counting loop, which are told apart by their places.
-/

namespace SigilScript

namespace Form

/-- A block of statements. -/
def block (items : List Form) : Form := .headed "block" items

/-- An atom for a part that may be absent. -/
def optionalAtom (part : Option String) : List Form := (part.map .atom).toList

/-- A label that may be absent. -/
def label (name : Option String) : List Form :=
  (name.map fun name => .atom (name ++ ":")).toList

/-- A list with this head unless it has no items. -/
def unlessEmpty (head : String) (items : List Form) : List Form :=
  if items.isEmpty then [] else [.headed head items]

/-- What is declared: one target stands by itself, several in parentheses. -/
def targets : List Form → Form
  | [single] => single
  | several => .list several

/-- A loop variable with its declarator, if it has one. -/
def declared (declarator : Option String) (holder : Form) : Form :=
  match declarator with
  | none => holder
  | some declarator => .headed declarator [holder]

/-- A clause of a counting loop; an absent one leaves a mark. -/
def loopClause (clause : List Form) : Form := clause.headD (.atom "_")

end Form

namespace Polarity

/-- The head of a conditional. -/
def conditionalHead : Polarity → String
  | .affirmed => "if"
  | .negated => "unless"

/-- The head of a loop. -/
def loopHead : Polarity → String
  | .affirmed => "while"
  | .negated => "until"

end Polarity

/-- The head of a jump. -/
def Jump.head : Jump → String
  | .last => "last"
  | .next => "next"
  | .redo => "redo"

/-- The head of an output. -/
def Output.head : Output → String
  | .print => "print"
  | .say => "say"

/-- The head of an alarm. -/
def Alarm.head : Alarm → String
  | .die => "die"
  | .warn => "warn"

/-- The head of a collection. -/
def Collection.head : Collection → String
  | .array => "array"
  | .hash => "hash"
  | .list => "list"

/-- The head of an access. -/
def Access.head : Access → String
  | .arrayElement => "[]"
  | .arraySlice => "@[]"
  | .hashElement => "\x7b\x7d"
  | .hashSlice => "@\x7b\x7d"

/-- The head of a topic. -/
def Topic.head : Topic → String
  | .given => "given"
  | .whenever => "when"
  | .matching => "match"
  | .case => "case"

namespace Node

mutual

/-- The form of a tree. -/
def form : Node → Form
  | .number spelling => .atom spelling
  | .string value interpolated =>
    .atom (if interpolated then doubleQuoted value else singleQuoted value)
  | .boolean value => .atom (if value then "true" else "false")
  | .var sigil name => .atom (sigil.text ++ name)
  | .bareword name => .atom name
  | .regex pattern flags => .atom ("/" ++ pattern ++ "/" ++ flags)
  | .binaryOp op left right => .headed op [left.form, right.form]
  | .assignment op target value => .headed op [target.form, value.form]
  | .patternMatch op target pattern => .headed op [target.form, pattern.form]
  | .unaryOp op operand trailing =>
    .headed (if trailing then "post" ++ op else op) [operand.form]
  | .ternary condition whenTrue whenFalse =>
    .headed "?:" [condition.form, whenTrue.form, whenFalse.form]
  | .declaration declarator targets initializer =>
    .headed declarator (.targets (forms targets) :: formOfOption initializer)
  | .conditional polarity condition body clauses otherwise =>
    .headed polarity.conditionalHead
      (condition.form :: .block (forms body) :: formsOfClauses clauses ++
        (formOfBlock otherwise).map fun body => .headed "else" [body])
  | .whileLoop polarity label condition body =>
    .headed polarity.loopHead (Form.label label ++ [condition.form, .block (forms body)])
  | .foreachLoop label declarator holder iterable body =>
    .headed "foreach"
      (Form.label label ++ (formOfOption holder).map (Form.declared declarator) ++
        [iterable.form, .block (forms body)])
  | .forLoop label init condition step body =>
    .headed "for"
      (Form.label label ++ [.loopClause (formOfOption init),
        .loopClause (formOfOption condition), .loopClause (formOfOption step),
        .block (forms body)])
  | .block label body => .headed "block" (Form.label label ++ forms body)
  | .doBlock body => .headed "do" [.block (forms body)]
  | .call name args => .headed "call" (.atom name :: forms args)
  | .codeCall target args => .headed "->()" (target.form :: forms args)
  | .sub name params body =>
    .headed "sub" (Form.optionalAtom name ++ Form.unlessEmpty "params" (forms params) ++
      [.block (forms body)])
  | .parameter holder none => holder.form
  | .parameter holder (some default) => .headed "param" [holder.form, default.form]
  | .returned value => .headed "return" (formOfOption value)
  | .jump kind label => .headed kind.head (Form.optionalAtom label)
  | .output kind filehandle args =>
    .headed kind.head ((formOfOption filehandle).map (fun form => .headed "fh" [form]) ++
      forms args)
  | .alarm kind args => .headed kind.head (forms args)
  | .collection kind items => .headed kind.head (forms items)
  | .access kind base index => .headed kind.head [base.form, index.form]
  | .dereference sigil target => .headed ("deref" ++ sigil.text) [target.form]
  | .postfixDeref base sigil => .headed ("->" ++ sigil.text ++ "*") [base.form]
  | .postfixSlice base sigil indices =>
    .headed ("->" ++ sigil.text ++ "[]") [base.form, indices.form]
  | .methodCall invocant method args =>
    .headed "->" (invocant.form :: .atom method :: forms args)
  | .classDecl name version parent body =>
    .headed "class" (.atom name ::
      (version.map fun version => .headed "version" [.atom version]).toList ++
      (parent.map fun parent => .headed "isa" [.atom parent]).toList ++ formOfBlock body)
  | .fieldDecl holder attributes default =>
    .headed "field" (holder.form ::
      Form.unlessEmpty "attrs" (attributes.map .atom) ++ formOfOption default)
  | .methodDecl name params body =>
    .headed "method" (.atom name :: Form.unlessEmpty "params" (forms params) ++
      [.block (forms body)])
  | .packageDecl name version body =>
    .headed "package" (.atom name :: Form.optionalAtom version ++ formOfBlock body)
  | .useDecl negated module version imports =>
    .headed (if negated then "no" else "use")
      (Form.optionalAtom module ++ Form.optionalAtom version ++ forms imports)
  | .require target => .headed "require" [target.form]
  | .tryBlock body handler final =>
    .headed "try" (.block (forms body) :: formOfHandler handler ++
      (formOfBlock final).map fun body => .headed "finally" [body])
  | .topic kind head body => .headed kind.head [head.form, .block (forms body)]
  | .defaultBlock body => .headed "default" [.block (forms body)]
  | .error fault => .headed "error" [.atom (doubleQuoted fault.message)]

/-- The forms of several trees. -/
def forms : List Node → List Form
  | [] => []
  | node :: nodes => node.form :: forms nodes

/-- The form of a part that may be absent. -/
def formOfOption : Option Node → List Form
  | none => []
  | some node => [node.form]

/-- The form of a block that may be absent. -/
def formOfBlock : Option (List Node) → List Form
  | none => []
  | some body => [.block (forms body)]

/-- The forms of further conditions with their blocks. -/
def formsOfClauses : List (Clause Node) → List Form
  | [] => []
  | ⟨condition, body⟩ :: clauses =>
    .headed "elsif" [condition.form, .block (forms body)] :: formsOfClauses clauses

/-- The form of a handler that may be absent. -/
def formOfHandler : Option (Handler Node) → List Form
  | none => []
  | some ⟨holder, body⟩ => [.headed "catch" (formOfOption holder ++ [.block (forms body)])]

end

/-- The text of a tree on one line. -/
def text (node : Node) : String := node.form.text

/-- The text of a tree laid out over lines. -/
def pretty (node : Node) : String := node.form.layout 0

end Node

/-- The text of a program: every statement laid out and ended by a newline. -/
def formatProgram (statements : List Node) : String :=
  String.join (statements.map fun node => node.pretty ++ "\n")

end SigilScript
