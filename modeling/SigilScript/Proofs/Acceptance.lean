import SigilScript.Proofs.Layout.Statement
import SigilScript.Proofs.Verdict

/-! # The brackets of accepted programs

A program without faults is properly nested but for the attributes of its declarations. What the
parentheses of an attribute hold is never read, so any brackets may stand there as long as the
parentheses themselves pair up; and the fault of a parenthesis without a partner is dropped, so
that it takes the rest of its statement with it.
-/

namespace SigilScript

/-- Every opener is closed by the closer of its kind, and no closer is left over, but for what the
attributes of declarations pass over. -/
inductive LooselyNested : List Lexeme → Prop where
  | nil : LooselyNested []
  | plain {lexeme : Lexeme} (opens : lexeme.category.isOpener = false)
    (closes : lexeme.category.isCloser = false) : LooselyNested [lexeme]
  | group {opener closer : Lexeme} {inner : List Lexeme}
    (partner : opener.category.closer? = some closer.category) (inside : LooselyNested inner) :
    LooselyNested (opener :: (inner ++ [closer]))
  | append {first second : List Lexeme} (front : LooselyNested first)
    (back : LooselyNested second) : LooselyNested (first ++ second)
  | attributes {intro marks : List Lexeme} (introduction : Introduction intro)
    (nested : LooselyNested intro) (attributes : Marks marks) : LooselyNested (intro ++ marks)
  /-- An attribute whose parenthesis has no partner, and all that it takes. -/
  | lost {intro marks rest : List Lexeme} (introduction : Introduction intro)
    (nested : LooselyNested intro) (attributes : Marks marks) (lost : Lost rest) :
    LooselyNested (intro ++ (marks ++ rest))

/-- An attribute of a declaration has a parenthesis. -/
def Decorated (lexemes : List Lexeme) : Prop :=
  ∃ (front intro marks rest : List Lexeme) (colon word opener : Lexeme),
    lexemes = front ++ (intro ++ (marks ++ colon :: word :: opener :: rest)) ∧
      Introduction intro ∧ Marks marks ∧ IsMark colon word ∧ opener.category = .leftParen

theorem Decorated.mono {inner whole : List Lexeme} (decorated : Decorated inner)
    (within : inner <:+: whole) : Decorated whole := by
  obtain ⟨before, behind, rfl⟩ := within
  obtain ⟨front, intro, marks, rest, colon, word, opener, rfl, parts⟩ := decorated
  exact ⟨before ++ front, intro, marks, rest ++ behind, colon, word, opener, by simp, parts⟩

/-- Attributes are colons and words, up to the first with a parenthesis. -/
theorem Marks.split {marks : List Lexeme} (attributes : Marks marks) :
    (∀ lexeme ∈ marks, lexeme.Plain) ∨
      ∃ (names rest : List Lexeme) (colon word opener : Lexeme),
        marks = names ++ colon :: word :: opener :: rest ∧ Marks names ∧ IsMark colon word ∧
          opener.category = .leftParen := by
  induction attributes with
  | nil => exact .inl fun _ member => absurd member List.not_mem_nil
  | @name colon word rest mark _ ih =>
    rcases ih with plain | ⟨names, rest, colon', word', opener, rfl, named, found⟩
    · refine .inl fun lexeme member => ?_
      rcases member with _ | ⟨_, _ | ⟨_, member⟩⟩
      · exact Lexeme.plain_of_role mark.1 rfl rfl
      · exact Lexeme.plain_of_word mark.2
      · exact plain lexeme member
    · exact .inr ⟨colon :: word :: names, rest, colon', word', opener, rfl, .name mark named, found⟩
  | group mark opens taken _ _ => exact .inr ⟨[], _, _, _, _, rfl, .nil, mark, opens⟩

/-- Plain lexemes are properly nested. -/
theorem Nested.of_plain {lexemes : List Lexeme}
    (classified : ∀ lexeme ∈ lexemes, ∃ previous, lexeme = lexeme.token.classify previous)
    (plain : ∀ lexeme ∈ lexemes, lexeme.Plain) : Nested lexemes :=
  .flat fun lexeme member => plain lexeme member (classified lexeme member)

/-- Without parentheses of attributes, nothing is passed over. -/
theorem LooselyNested.nested {lexemes : List Lexeme} (loosely : LooselyNested lexemes)
    (classified : ∀ lexeme ∈ lexemes, ∃ previous, lexeme = lexeme.token.classify previous)
    (bare : ¬ Decorated lexemes) : Nested lexemes := by
  induction loosely with
  | nil => exact .nil
  | plain opens closes => exact .plain opens closes .nil
  | @group opener closer inner partner _ ih =>
    refine .single partner (ih (fun lexeme member => classified lexeme (by simp [member]))
      fun decorated => bare (decorated.mono ⟨[opener], [closer], by simp⟩))
  | append _ _ ihFront ihBack =>
    refine (ihFront (fun lexeme member => classified lexeme (List.mem_append_left _ member))
      fun decorated => bare (decorated.mono (List.prefix_append ..).isInfix)).append
      (ihBack (fun lexeme member => classified lexeme (List.mem_append_right _ member))
        fun decorated => bare (decorated.mono (List.suffix_append ..).isInfix))
  | @attributes intro marks introduction _ attributes ih =>
    have front := ih (fun lexeme member => classified lexeme (List.mem_append_left _ member))
      fun decorated => bare (decorated.mono (List.prefix_append ..).isInfix)
    rcases attributes.split with plain | ⟨names, rest, colon, word, opener, rfl, named, mark, opens⟩
    · exact front.append <| .of_plain
        (fun lexeme member => classified lexeme (List.mem_append_right _ member)) plain
    · exact absurd ⟨[], intro, names, rest, colon, word, opener, rfl, introduction, named, mark,
        opens⟩ bare
  | @lost intro marks _ introduction _ attributes lost _ =>
    cases lost with
    | @intro colon word opener rest mark opens _ =>
      exact absurd ⟨[], intro, marks, rest, colon, word, opener, rfl, introduction, attributes,
        mark, opens⟩ bare

/-! ## What trees without faults were read from -/

/-- The lexemes between two lists are nested but for attributes. -/
def ReadNested (lexemes left : List Lexeme) : Prop :=
  ∃ read, lexemes = read ++ left ∧ LooselyNested read

theorem ReadNested.whole {lexemes : List Lexeme} (nested : ReadNested lexemes []) :
    LooselyNested lexemes := by
  obtain ⟨read, rfl, nested⟩ := nested
  rwa [List.append_nil]

theorem LooselyNested.read {lexemes : List Lexeme} (nested : LooselyNested lexemes) :
    ReadNested lexemes [] :=
  ⟨lexemes, (List.append_nil lexemes).symm, nested⟩

/-- What trees without faults were read from is nested but for attributes. -/
theorem Laid.looselyNested {scope : Scope} {nodes : List Node} {lexemes left : List Lexeme}
    (laid : Laid scope nodes lexemes left)
    (classified : ∀ lexeme ∈ lexemes, ∃ previous, lexeme = lexeme.token.classify previous)
    (sound : nodes.flatMap Node.faults = []) : ReadNested lexemes left := by
  induction laid with
  | refl => exact ⟨[], rfl, .nil⟩
  | @plain lexeme left plain =>
    obtain ⟨opens, closes⟩ := plain (classified lexeme List.mem_cons_self)
    exact ⟨[lexeme], rfl, .plain opens closes⟩
  | trans first second ihFirst ihSecond =>
    rw [List.flatMap_append, List.append_eq_nil_iff] at sound
    obtain ⟨front, rfl, nested⟩ := ihFirst classified sound.1
    obtain ⟨back, rfl, nested'⟩ :=
      ihSecond (fun lexeme member => classified lexeme (List.mem_append_right _ member)) sound.2
    exact ⟨front ++ back, (List.append_assoc ..).symm, nested.append nested'⟩
  | @group _ nodes opener closer inner left partner inside ih =>
    have nested := (ih (fun lexeme member => classified lexeme (by simp [member])) sound).whole
    exact ⟨opener :: (inner ++ [closer]), by simp, .group partner nested⟩
  | @marked nodes intro marks left introduction _ attributes ih =>
    have nested := (ih (fun lexeme member => classified lexeme (by simp [member])) sound).whole
    exact ⟨intro ++ marks, by simp, .attributes introduction nested attributes⟩
  | node _ _ ih =>
    rw [List.flatMap_singleton, Node.faults_eq, List.append_eq_nil_iff] at sound
    exact ih classified sound.2
  | fault | missing | uncoloned => simp [Node.faults] at sound
  | phrase _ ih => exact ih classified sound
  | @lost tree intro marks rest introduction _ _ _ attributes lost ih =>
    rw [List.flatMap_singleton, Node.faults_eq, List.append_eq_nil_iff] at sound
    have nested := (ih (fun lexeme member => classified lexeme (by simp [member])) sound.2).whole
    exact (LooselyNested.lost introduction nested attributes lost).read
  | @modified tree condition body lexemes cut found _ _ parts _ _ ihFirst ihSecond =>
    have whole := cutAtTopLevel?_whole found
    rw [Cut.whole] at whole
    rw [List.flatMap_singleton, Node.faults_eq, parts, List.append_eq_nil_iff] at sound
    rw [List.flatMap_cons, List.append_eq_nil_iff] at sound
    rw [← whole] at classified ⊢
    have front := ihFirst (fun lexeme member => classified lexeme (List.mem_append_right _ member))
      (by simpa using sound.2.1)
    have back := ihSecond (fun lexeme member => classified lexeme (List.mem_append_left _ member))
      sound.2.2
    exact (back.whole.append front.whole).read
  | @terminated nodes lexemes last ends _ ih =>
    have front := ih (fun lexeme member => classified lexeme (List.mem_append_left _ member)) sound
    exact (front.whole.append (.plain (by rw [ends]; rfl) (by rw [ends]; rfl))).read
  | @statement nodes more lexemes _ _ ihFirst ihOthers =>
    rw [List.flatMap_append, List.append_eq_nil_iff] at sound
    have front := ihFirst (fun lexeme member => classified lexeme (List.mem_of_mem_take member))
      sound.1
    have back := ihOthers (fun lexeme member => classified lexeme (List.mem_of_mem_drop member))
      sound.2
    have whole := front.whole.append back.whole
    rw [List.take_append_drop] at whole
    exact whole.read

/-- An accepted program is properly nested but for the attributes of its declarations, and properly
nested altogether where none of these has a parenthesis. -/
theorem looselyNested_of_accepted {text : List Char} {nodes : List Node}
    (accepted : parseStrict text = .ok nodes) :
    LooselyNested (lexemesOf (classifyAll (scan text))) ∧
      (¬ Decorated (lexemesOf (classifyAll (scan text))) →
        Nested (lexemesOf (classifyAll (scan text)))) := by
  obtain ⟨tokens, scanned, rfl, sound⟩ := sound_of_parseStrict accepted
  rw [scanned, classifyAll_ok, lexemesOf_ok]
  have classified := Context.start.classified_lexemes tokens
  have loosely := ((laid_parseItems _).looselyNested classified
    (List.flatMap_eq_nil_iff.mpr sound)).whole
  exact ⟨loosely, loosely.nested classified⟩

/-- The parenthesis of an attribute is never closed. -/
theorem looselyNested_of_accepted_lost :
    LooselyNested (lexemesOf (classifyAll (scan "sub f :a(;".toList))) ∧
      ¬ Nested (lexemesOf (classifyAll (scan "sub f :a(;".toList))) := by
  have accepted : parseStrict "sub f :a(;".toList = .ok [.sub (some "f") [] []] := by
    with_unfolding_all rfl
  refine ⟨(looselyNested_of_accepted accepted).1, fun nested => ?_⟩
  have lexemes : lexemesOf (classifyAll (scan "sub f :a(;".toList)) =
      [⟨⟨.identifier, "sub", ⟨1, 1⟩⟩, .keyword⟩, ⟨⟨.identifier, "f", ⟨1, 5⟩⟩, .identifier⟩,
        ⟨⟨.colon, ":", ⟨1, 7⟩⟩, .colon⟩, ⟨⟨.identifier, "a", ⟨1, 8⟩⟩, .identifier⟩] ++
        ⟨⟨.openParen, "(", ⟨1, 9⟩⟩, .leftParen⟩ ::
          [⟨⟨.semicolon, ";", ⟨1, 10⟩⟩, .terminator⟩] := by
    with_unfolding_all rfl
  obtain ⟨inner, closer, after, behind, -, partner⟩ := nested.partner lexemes rfl
  -- Only the semicolon stands behind the parenthesis, and it closes nothing.
  rcases inner with _ | ⟨first, inner⟩
  · obtain ⟨rfl, -⟩ := List.cons.inj behind
    contradiction
  · simp at behind

end SigilScript
