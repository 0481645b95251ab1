import Mathlib.Data.List.Basic
import SigilScript.Node.Form
import SigilScript.Proofs.Form.Lines

/-! # The width of a program's lines

A form that is too wide for its level is broken wherever it holds several atoms, so without the
parentheses of the lists around it a line keeps to the width or holds one atom. Those parentheses
are on the line too, but nothing was decided by them: a list that just fits and ends others is
carried over the width by the parentheses that close them.
-/

namespace SigilScript

variable {items more : List Form}

/-! ## Where trees can be broken -/

namespace Form

theorem allBreakable_append (first : AllBreakable items) (further : AllBreakable more) :
    AllBreakable (items ++ more) := by
  induction items with
  | nil => exact further
  | cons item items ih => exact ⟨first.1, ih first.2⟩

/-- A list that an atom heads has where to break if its items have. -/
theorem breakable_headed (head : String) (breakable : AllBreakable items) :
    (headed head items).Breakable := by
  cases items with
  | nil => exact ⟨trivial, trivial⟩
  | cons item items => exact ⟨trivial, breakable⟩

theorem breakable_block (breakable : AllBreakable items) : (block items).Breakable :=
  breakable_headed "block" breakable

theorem allBreakable_optionalAtom (part : Option String) : AllBreakable (optionalAtom part) := by
  cases part with
  | none => trivial
  | some text => exact ⟨trivial, trivial⟩

theorem allBreakable_label (name : Option String) : AllBreakable (label name) := by
  cases name with
  | none => trivial
  | some name => exact ⟨trivial, trivial⟩

theorem allBreakable_unlessEmpty (head : String) (breakable : AllBreakable items) :
    AllBreakable (unlessEmpty head items) := by
  rw [unlessEmpty]
  split
  · trivial
  · exact ⟨breakable_headed head breakable, trivial⟩

theorem allBreakable_atoms (texts : List String) : AllBreakable (texts.map .atom) := by
  induction texts with
  | nil => trivial
  | cons text texts ih => exact ⟨trivial, ih⟩

/-- A single target stands by itself, so it is in no list of one item. -/
theorem breakable_targets (breakable : AllBreakable items) : (targets items).Breakable := by
  match items with
  | [] => exact trivial
  | [single] => exact breakable.1
  | first :: second :: items => cases first <;> exact breakable

theorem breakable_declared (declarator : Option String) {holder : Form}
    (breakable : holder.Breakable) : (declared declarator holder).Breakable := by
  cases declarator with
  | none => exact breakable
  | some declarator => exact breakable_headed declarator ⟨breakable, trivial⟩

theorem breakable_loopClause (breakable : AllBreakable items) : (loopClause items).Breakable := by
  cases items with
  | nil => trivial
  | cons item items => exact breakable.1

end Form

namespace Node

open Form

mutual

/-- The form of every tree has where to break wherever it holds several atoms. -/
theorem breakable_form : ∀ node : Node, node.form.Breakable
  | .number _ | .string .. | .boolean _ | .var .. | .bareword _ | .regex .. => trivial
  | .binaryOp _ left right | .assignment _ left right | .patternMatch _ left right
  | .access _ left right | .postfixSlice left _ right =>
    breakable_headed _ ⟨breakable_form left, breakable_form right, trivial⟩
  | .unaryOp _ operand _ | .dereference _ operand | .postfixDeref operand _ | .require operand =>
    breakable_headed _ ⟨breakable_form operand, trivial⟩
  | .ternary condition whenTrue whenFalse =>
    breakable_headed _ ⟨breakable_form condition, breakable_form whenTrue,
      breakable_form whenFalse, trivial⟩
  | .declaration _ targets initializer =>
    breakable_headed _ ⟨breakable_targets (allBreakable_forms targets),
      allBreakable_option initializer⟩
  | .conditional _ condition body clauses otherwise => by
    apply breakable_headed
    apply allBreakable_append
    · exact ⟨breakable_form condition, breakable_block (allBreakable_forms body),
        allBreakable_clauses clauses⟩
    · cases otherwise with
      | none => trivial
      | some body =>
        exact ⟨breakable_headed _ ⟨breakable_block (allBreakable_forms body), trivial⟩, trivial⟩
  | .whileLoop _ label condition body =>
    breakable_headed _ (allBreakable_append (allBreakable_label label)
      ⟨breakable_form condition, breakable_block (allBreakable_forms body), trivial⟩)
  | .foreachLoop label declarator holder iterable body => by
    apply breakable_headed
    apply allBreakable_append
    · apply allBreakable_append (allBreakable_label label)
      cases holder with
      | none => trivial
      | some holder => exact ⟨breakable_declared declarator (breakable_form holder), trivial⟩
    · exact ⟨breakable_form iterable, breakable_block (allBreakable_forms body), trivial⟩
  | .forLoop label init condition step body =>
    breakable_headed _ (allBreakable_append (allBreakable_label label)
      ⟨breakable_loopClause (allBreakable_option init),
        breakable_loopClause (allBreakable_option condition),
        breakable_loopClause (allBreakable_option step),
        breakable_block (allBreakable_forms body), trivial⟩)
  | .block label body =>
    breakable_headed _ (allBreakable_append (allBreakable_label label) (allBreakable_forms body))
  | .doBlock body | .defaultBlock body =>
    breakable_headed _ ⟨breakable_block (allBreakable_forms body), trivial⟩
  | .call _ args => breakable_headed _ ⟨trivial, allBreakable_forms args⟩
  | .codeCall target args =>
    breakable_headed _ ⟨breakable_form target, allBreakable_forms args⟩
  | .sub name params body =>
    breakable_headed _ (allBreakable_append
      (allBreakable_append (allBreakable_optionalAtom name)
        (allBreakable_unlessEmpty _ (allBreakable_forms params)))
      ⟨breakable_block (allBreakable_forms body), trivial⟩)
  | .parameter holder none => breakable_form holder
  | .parameter holder (some default) =>
    breakable_headed _ ⟨breakable_form holder, breakable_form default, trivial⟩
  | .returned value => breakable_headed _ (allBreakable_option value)
  | .jump _ label => breakable_headed _ (allBreakable_optionalAtom label)
  | .output _ filehandle args => by
    apply breakable_headed
    apply allBreakable_append
    · cases filehandle with
      | none => trivial
      | some filehandle =>
        exact ⟨breakable_headed _ ⟨breakable_form filehandle, trivial⟩, trivial⟩
    · exact allBreakable_forms args
  | .alarm _ args | .collection _ args => breakable_headed _ (allBreakable_forms args)
  | .methodCall invocant _ args =>
    breakable_headed _ ⟨breakable_form invocant, trivial, allBreakable_forms args⟩
  | .classDecl _ version parent body => by
    apply breakable_headed
    apply allBreakable_append
    · refine ⟨trivial, allBreakable_append ?_ ?_⟩
      · cases version with
        | none => trivial
        | some version => exact ⟨breakable_headed _ ⟨trivial, trivial⟩, trivial⟩
      · cases parent with
        | none => trivial
        | some parent => exact ⟨breakable_headed _ ⟨trivial, trivial⟩, trivial⟩
    · exact allBreakable_body body
  | .fieldDecl holder attributes default =>
    breakable_headed _ ⟨breakable_form holder, allBreakable_append
      (allBreakable_unlessEmpty _ (allBreakable_atoms attributes)) (allBreakable_option default)⟩
  | .methodDecl _ params body =>
    breakable_headed _ ⟨trivial, allBreakable_append
      (allBreakable_unlessEmpty _ (allBreakable_forms params))
      ⟨breakable_block (allBreakable_forms body), trivial⟩⟩
  | .packageDecl _ version body =>
    breakable_headed _ ⟨trivial, allBreakable_append (allBreakable_optionalAtom version)
      (allBreakable_body body)⟩
  | .useDecl _ module version imports =>
    breakable_headed _ (allBreakable_append
      (allBreakable_append (allBreakable_optionalAtom module) (allBreakable_optionalAtom version))
      (allBreakable_forms imports))
  | .tryBlock body handler final => by
    apply breakable_headed
    apply allBreakable_append
    · exact ⟨breakable_block (allBreakable_forms body), allBreakable_handler handler⟩
    · cases final with
      | none => trivial
      | some body =>
        exact ⟨breakable_headed _ ⟨breakable_block (allBreakable_forms body), trivial⟩, trivial⟩
  | .topic _ head body =>
    breakable_headed _ ⟨breakable_form head, breakable_block (allBreakable_forms body), trivial⟩
  | .error _ => breakable_headed _ ⟨trivial, trivial⟩

theorem allBreakable_forms : ∀ nodes : List Node, AllBreakable (forms nodes)
  | [] => trivial
  | node :: nodes => ⟨breakable_form node, allBreakable_forms nodes⟩

theorem allBreakable_option : ∀ part : Option Node, AllBreakable (formOfOption part)
  | none => trivial
  | some node => ⟨breakable_form node, trivial⟩

theorem allBreakable_body : ∀ body : Option (List Node), AllBreakable (formOfBlock body)
  | none => trivial
  | some body => ⟨breakable_block (allBreakable_forms body), trivial⟩

theorem allBreakable_clauses : ∀ clauses : List (Clause Node), AllBreakable (formsOfClauses clauses)
  | [] => trivial
  | ⟨condition, body⟩ :: clauses =>
    ⟨breakable_headed _ ⟨breakable_form condition, breakable_block (allBreakable_forms body),
      trivial⟩, allBreakable_clauses clauses⟩

theorem allBreakable_handler : ∀ handler : Option (Handler Node),
    AllBreakable (formOfHandler handler)
  | none => trivial
  | some ⟨holder, body⟩ =>
    ⟨breakable_headed _ (allBreakable_append (allBreakable_option holder)
      ⟨breakable_block (allBreakable_forms body), trivial⟩), trivial⟩

end

end Node

/-! ## The lines of a program -/

/-- The lines of a program's layout. -/
def programLines (statements : List Node) : List Form.Line :=
  statements.flatMap fun node => node.form.lines 0 0 0

namespace Form

/-- Whether a line keeps to the width without the parentheses of the lists around its form, and does
not with them. -/
def Line.Overrun (line : Line) : Prop :=
  line.core ≤ width ∧ width < line.core + (line.opened + line.closed)

/-- Lines without newlines in them are found again between the newlines that end them. -/
theorem splitOn_ended {lines : List Line} (free : ∀ line ∈ lines, '\n' ∉ line.text.toList) :
    (lines.flatMap Line.ended).splitOn '\n' = lines.map (fun line => line.text.toList) ++ [[]] := by
  induction lines with
  | nil => rfl
  | cons line lines ih =>
    rw [List.forall_mem_cons] at free
    have inside : ∀ c ∈ line.text.toList, (c == '\n') = false := by
      intro c member
      exact beq_false_of_ne fun same => free.1 (same ▸ member)
    rw [List.flatMap_cons, Line.ended, List.append_assoc, List.singleton_append, List.splitOn,
      List.splitOnP_append_cons_of_forall_mem inside _ (beq_self_eq_true _), ← List.splitOn,
      ih free.2, List.map_cons, List.cons_append]

end Form

open Form

theorem toList_formatProgram (statements : List Node) :
    (formatProgram statements).toList = (programLines statements).flatMap Line.ended := by
  have ended (node : Node) :
      (node.form.lines 0 0 0).flatMap Line.ended = (node.pretty ++ "\n").toList := by
    rw [ended_lines]
    simp [Node.pretty, indentation, repeated]
  rw [formatProgram, String.toList_join, programLines, List.flatMap_assoc, List.flatMap_map]
  exact List.flatMap_congr fun node _ => (ended node).symm

/-- A program is laid out in lines that hold its atoms in order, and a line of several atoms is
wider than the limit if and only if the parentheses of the lists around its form carry it over. -/
theorem overlong_iff_overrun {statements : List Node}
    (single : ∀ node ∈ statements, ∀ atom ∈ node.form.atoms, '\n' ∉ atom.toList) :
    (formatProgram statements).toList.splitOn '\n' =
        (programLines statements).map (fun line => line.text.toList) ++ [[]] ∧
      (programLines statements).flatMap (fun line => line.form.atoms) =
        statements.flatMap (fun node => node.form.atoms) ∧
      ∀ line ∈ programLines statements, 1 < line.form.atoms.length →
        (width < line.text.utf8ByteSize ↔ line.Overrun) := by
  have atoms : (programLines statements).flatMap (fun line => line.form.atoms) =
      statements.flatMap (fun node => node.form.atoms) := by
    rw [programLines, List.flatMap_assoc]
    exact List.flatMap_congr fun node _ => atoms_lines 0 0 0 node.form
  refine ⟨?_, atoms, ?_⟩
  · rw [toList_formatProgram]
    apply splitOn_ended
    intro line member
    apply line.no_newline
    intro atom held
    have among : atom ∈ (programLines statements).flatMap fun line => line.form.atoms :=
      List.mem_flatMap.mpr ⟨line, member, held⟩
    rw [atoms] at among
    obtain ⟨node, member, held⟩ := List.mem_flatMap.mp among
    exact single node member atom held
  · intro line member several
    obtain ⟨node, -, member⟩ := List.mem_flatMap.mp member
    have whole := whole_lines 0 0 0 node.form node.breakable_form line member
    rw [line.utf8ByteSize_text, Line.Overrun]
    exact ⟨fun wide => ⟨whole.fits several, wide⟩, fun overrun => overrun.2⟩

/-- The call of `g` fits behind its indentation, so it is not broken; the parenthesis of the call
around it, whose last argument it is, makes the line too wide. -/
theorem overlong_iff_overrun_last :
    ∃ line ∈ programLines [.call "f" [.number "1", .call "g" [.plain (repeated 'a' 59)]]],
      line.form.atoms.length = 3 ∧ width < line.text.utf8ByteSize ∧ line.Overrun := by
  let statements : List Node :=
    [.call "f" [.number "1", .call "g" [.plain (repeated 'a' 59)]]]
  let line : Line :=
    ⟨1, 0, .headed "call" [.atom "g", .atom (singleQuoted (repeated 'a' 59))], 1⟩
  have member : line ∈ programLines statements := List.mem_of_getElem? (i := 3) (by rfl)
  have three : line.form.atoms.length = 3 := rfl
  have wide : width < line.text.utf8ByteSize := by decide +kernel
  have single : ∀ node ∈ statements, ∀ atom ∈ node.form.atoms, '\n' ∉ atom.toList := by
    decide +kernel
  obtain ⟨-, -, overlong⟩ := overlong_iff_overrun single
  exact ⟨line, member, three, wide, (overlong line member (by omega)).mp wide⟩

end SigilScript
