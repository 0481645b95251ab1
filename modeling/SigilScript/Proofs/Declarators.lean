import SigilScript.Proofs.Layout.Statement
import SigilScript.Proofs.Verdict
import SigilScript.Proofs.WellFormed.Expression

/-! # The declarators of loops

A loop may declare its variable. The declarator and the variable are read one after the other, and
each of them may be absent. Trees are laid over the lexemes they were read from, so a loop that has
a declarator stands where its keyword, the declarator and one lexeme more stand in a row: that one
is the variable, or it is the parenthesis of the header and the loop has no variable.
-/

namespace SigilScript

namespace Node

/-- A tree is read from some place in these lexemes on. -/
def ReadWithin (tree : Node) (lexemes : List Lexeme) : Prop :=
  ∃ back, back <:+ lexemes ∧ tree.ReadFrom back

theorem ReadWithin.mono {tree : Node} {inner whole : List Lexeme} (within : tree.ReadWithin inner)
    (part : inner <:+: whole) : tree.ReadWithin whole := by
  obtain ⟨back, ⟨front, rfl⟩, reads⟩ := within
  obtain ⟨before, behind, rfl⟩ := part
  exact ⟨back ++ behind, ⟨before ++ front, by simp⟩, reads.append behind⟩

/-- A part of a part is a part. -/
theorem Inside.trans {part middle tree : Node} (inner : part.Inside middle)
    (outer : middle.Inside tree) : part.Inside tree := by
  induction outer with
  | here => exact inner
  | child member _ ih => exact .child member ih

/-- A part of a fault is the fault. -/
theorem Inside.isError {part : Node} {fault : SyntaxFault} (inside : part.Inside (.error fault)) :
    part.isError = true := by
  cases inside with
  | here => rfl
  | child member => exact absurd member List.not_mem_nil

end Node

/-- Whatever stands inside trees that are laid over lexemes is read from a place among them, unless
it is a fault. -/
theorem Laid.readWithin {scope : Scope} {nodes : List Node} {lexemes left : List Lexeme}
    (laid : Laid scope nodes lexemes left) {tree part : Node} (member : tree ∈ nodes)
    (inside : part.Inside tree) (sound : part.isError = false) : part.ReadWithin lexemes := by
  have noFault {fault : SyntaxFault} (inside : part.Inside (.error fault)) : False := by
    rw [inside.isError] at sound
    contradiction
  induction laid generalizing tree with
  | refl | plain => exact absurd member List.not_mem_nil
  | trans first _ ihFirst ihSecond =>
    rcases List.mem_append.mp member with member | member
    · exact ihFirst member inside
    · exact (ihSecond member inside).mono first.suffix.isInfix
  | @group _ _ opener closer inner left _ _ ih =>
    exact (ih member inside).mono ⟨[opener], closer :: left, by simp⟩
  | marked _ _ _ ih => exact (ih member inside).mono (List.prefix_append ..).isInfix
  | node reads _ ih =>
    obtain rfl := List.mem_singleton.mp member
    cases inside with
    | here => exact ⟨_, List.suffix_refl _, reads⟩
    | child member inside => exact ih member inside
  | fault =>
    obtain rfl := List.mem_singleton.mp member
    exact (noFault inside).elim
  | @missing _ _ last front left _ ih =>
    rcases List.mem_append.mp member with member | member
    · exact (ih member inside).mono ⟨[], left, by simp⟩
    · obtain rfl := List.mem_singleton.mp member
      exact (noFault inside).elim
  | @uncoloned condition branch question _ _ _ _ first _ ihCondition ihBranch =>
    obtain rfl := List.mem_singleton.mp member
    cases inside with
    | here => exact ⟨_, List.suffix_refl _, trivial⟩
    | child member inside =>
      rcases List.mem_cons.mp member with rfl | member
      · exact ihCondition List.mem_cons_self inside
      · rcases List.mem_cons.mp member with rfl | member
        · exact (ihBranch List.mem_cons_self inside).mono first.suffix.isInfix
        · obtain rfl := List.mem_singleton.mp member
          exact (noFault inside).elim
  | phrase _ ih => exact ih member inside
  | lost _ _ reads _ _ _ ih =>
    obtain rfl := List.mem_singleton.mp member
    cases inside with
    | here => exact ⟨_, List.suffix_refl _, reads⟩
    | child member inside => exact (ih member inside).mono (List.prefix_append ..).isInfix
  | @modified _ _ _ _ cut found _ reads parts _ _ ihCondition ihBody =>
    obtain rfl := List.mem_singleton.mp member
    have whole := cutAtTopLevel?_whole found
    cases inside with
    | here => exact ⟨_, List.suffix_refl _, reads⟩
    | child member inside =>
      rw [← whole, Cut.whole]
      rw [parts] at member
      rcases List.mem_cons.mp member with rfl | member
      · exact (ihCondition List.mem_cons_self inside).mono (List.suffix_append ..).isInfix
      · exact (ihBody member inside).mono (List.prefix_append ..).isInfix
  | terminated _ _ ih => exact (ih member inside).mono (List.prefix_append ..).isInfix
  | statement _ _ ihFirst ihOthers =>
    rcases List.mem_append.mp member with member | member
    · exact (ihFirst member inside).mono (List.take_prefix ..).isInfix
    · exact (ihOthers member inside).mono (List.drop_suffix ..).isInfix

section

variable {text : List Char} {nodes : List Node} {tree : Node} {label : Option String}
  {declarator : String} {holder : Option Node} {iterable : Node} {body : List Node}

/-- A loop with a declarator in an accepted program stands at its head. -/
theorem loopHead_of_accepted (accepted : parseStrict text = .ok nodes) (member : tree ∈ nodes)
    (inside : (Node.foreachLoop label (some declarator) holder iterable body).Inside tree) :
    ∃ back, back <:+ lexemesOf (classifyAll (scan text)) ∧ LoopHead declarator holder back := by
  obtain ⟨tokens, scanned, rfl, sound⟩ := sound_of_parseStrict accepted
  rw [scanned, classifyAll_ok, lexemesOf_ok]
  obtain ⟨back, suffix, reads⟩ := (laid_parseItems _).readWithin member inside rfl
  refine ⟨back, suffix, reads.resolve_left fun fault => ?_⟩
  cases iterable with
  | error found =>
    have part : (Node.error found).Inside
        (.foreachLoop label (some declarator) holder (.error found) body) :=
      .child (by simp [Node.children]) .here
    have listed : (Node.error found).Inside tree := part.trans inside
    exact Node.faults_eq_nil_iff.mp (sound tree member) found listed
  | _ => contradiction

/-- In an accepted program a loop that has a declarator has a variable, unless the declarator stands
between the keyword and the parenthesis of the header. -/
theorem holder_of_accepted (accepted : parseStrict text = .ok nodes) (member : tree ∈ nodes)
    (inside : (Node.foreachLoop label (some declarator) holder iterable body).Inside tree) :
    (∃ sigil name, holder = some (.var sigil name)) ∨
      holder = none ∧ ∃ front keyword word opener back,
        lexemesOf (classifyAll (scan text)) = front ++ keyword :: word :: opener :: back ∧
          keyword.BeginsLoop ∧ word.category = .declarator ∧ word.text = declarator ∧
            opener.category = .leftParen := by
  obtain ⟨back, ⟨front, whole⟩, head⟩ := loopHead_of_accepted accepted member inside
  cases head with
  | @intro keyword word next rest begins declares spelled held bare =>
    cases holder with
    | some variable_ =>
      obtain ⟨sigil, name, same⟩ := next.exists_var_of_asVar? held.symm
      exact .inl ⟨sigil, name, congrArg some same⟩
    | none => exact .inr ⟨rfl, front, keyword, word, next, rest, whole.symm, begins, declares,
        spelled, bare rfl⟩

end

/-- A parenthesis may stand right behind the declarator, so that the loop has no variable. -/
theorem declarator_without_holder :
    ¬ ∀ (text : List Char) (nodes : List Node), parseStrict text = .ok nodes →
      ∀ tree ∈ nodes, ∀ (label : Option String) (declarator : String) (holder : Option Node)
        (iterable : Node) (body : List Node),
        (Node.foreachLoop label (some declarator) holder iterable body).Inside tree →
          holder.isSome = true := by
  intro always
  have accepted : parseStrict "for my (@x) \x7b\x7d".toList =
      .ok [.foreachLoop none (some "my") none (.var .array "x") []] := by
    with_unfolding_all rfl
  have held := always _ _ accepted _ List.mem_cons_self _ _ _ _ _ .here
  exact Bool.false_ne_true held

/-- The head of a loop in a block, with a declarator and no variable. -/
theorem holder_of_accepted_block :
    ∃ tree, parseStrict "\x7b for my (@x) \x7b\x7d \x7d".toList = .ok [tree] ∧
      (Node.foreachLoop none (some "my") none (.var .array "x") []).Inside tree ∧
      ∃ front keyword word opener back,
        lexemesOf (classifyAll (scan "\x7b for my (@x) \x7b\x7d \x7d".toList)) =
          front ++ keyword :: word :: opener :: back ∧
          keyword.BeginsLoop ∧ word.category = .declarator ∧ word.text = "my" ∧
            opener.category = .leftParen := by
  have accepted : parseStrict "\x7b for my (@x) \x7b\x7d \x7d".toList =
      .ok [.block none [.foreachLoop none (some "my") none (.var .array "x") []]] := by
    with_unfolding_all rfl
  have inside : (Node.foreachLoop none (some "my") none (.var .array "x") []).Inside
      (.block none [.foreachLoop none (some "my") none (.var .array "x") []]) :=
    .child List.mem_cons_self .here
  refine ⟨_, accepted, inside, ?_⟩
  rcases holder_of_accepted accepted List.mem_cons_self inside with ⟨sigil, name, held⟩ | bare
  · cases held
  · exact bare.2

end SigilScript
