import SigilScript.Proofs.Composition
import SigilScript.Proofs.Extent
import SigilScript.Proofs.Misread
import SigilScript.Proofs.Scan.Slash

/-! # Division behind a chain

A text whose only tree is a chain is divided by what stands behind a slash, except where the
scanner misreads the end of the chain: then the slash opens a pattern that has no end.
-/

namespace SigilScript

/-! ## Statements -/

/-- A scan fault takes the place of the statement that it stands in. -/
theorem parseItems_fault {lexemes behind : List Lexeme} {further : Boundary}
    (takes : Boundary.start.Takes lexemes further) (inside : 0 ≤ further.depth)
    (resumed : further.awaiting = false)
    (plain : ∀ lexeme ∈ behind, lexeme.category.delta = 0 ∧ lexeme.category ≠ .terminator)
    (last : Lexeme) (fault : ScanFault) :
    parseItems (lexemes.map .ok ++ .error fault :: (behind ++ [last]).map .ok) =
      [.error fault.inTree] := by
  obtain ⟨final, takes', resumed⟩ := Boundary.takes_plain plain inside resumed
  let held : Collector := (Collector.start 0).taking further lexemes
  let faulty : Collector := { held with fault := some fault, asked := held.asked + 1 }
  have begun : piecesOf (lexemes.map .ok ++ .error fault :: (behind ++ [last]).map .ok) =
      faulty.pieces (behind.map .ok ++ [.ok last]) := by
    rw [piecesOf, Collector.pieces_takes _ takes, List.map_append]
    rfl
  obtain ⟨asked, whole⟩ := (faulty.taking final behind).pieces_last
    (Boundary.offer_ne_endBefore resumed)
  rw [parseItems, begun, faulty.pieces_takes takes', whole]
  rfl

/-- A program that is one chain, and what it becomes with a division behind it. -/
theorem parseItems_divided {lexemes : List Lexeme} {last : Lexeme} {node : Node}
    (reads : Context.start.Reads lexemes) (level : Level 0 lexemes)
    (outside : hasTopLevel lexemes .terminator = false) (ends : last.category = .terminator)
    (read : parseItems ((lexemes ++ [last]).map .ok) = [node]) (sound : node.faults = [])
    (chained : node.isChained = true) :
    EndsChain lexemes ∧
      (∃ further : Boundary, Boundary.start.Takes lexemes further ∧ 0 ≤ further.depth ∧
        further.awaiting = false) ∧
      ∀ {sigil : Sigil} {sign divisor last' : Lexeme}, IsDivision sigil sign divisor →
        last'.category = .terminator →
        parseItems ((lexemes ++ [sign, divisor] ++ [last']).map .ok) =
          [.binaryOp "/" node (.ofSpelling sigil divisor.text)] := by
  obtain ⟨parsed, further, takes, inside, resumed⟩ :=
    takes_of_chained ends level outside reads.names read sound chained
  rw [parseStatement_eq] at parsed
  obtain ⟨⟨front, head, rest, same, whole⟩, divided⟩ :=
    Grammar.readStatement_divided ends reads.classified parsed chained sound
  refine ⟨?_, ⟨further, takes, inside, resumed⟩,
    fun {sigil sign divisor last'} division ends' => ?_⟩
  · rw [same] at reads ⊢
    rw [← whole] at sound chained
    obtain ⟨lexeme, more, same, operand⟩ := Grammar.whole_chained chained
    rw [same] at reads ⊢
    have classified := fun other member =>
      reads.classified other (List.mem_append_right front member)
    exact Grammar.operand_ends classified operand sound chained reads
  · have plain : ∀ lexeme ∈ [sign, divisor],
        lexeme.category.delta = 0 ∧ lexeme.category ≠ .terminator := by
      simp [division.role, division.var, Category.delta, Category.isOpener, Category.isCloser]
    obtain ⟨final, takes', resumed⟩ := Boundary.takes_plain plain inside resumed
    have parsed' := (parseStatement_eq _).trans (divided division ends')
    rw [parseItems_ok, (takes.append takes').splitStatements resumed last',
      List.filterMap_cons_some parsed']
    rfl

/-! ## Texts -/

/-- A text that is one operand: it ends with its last token, no terminator stands on its level, and
with one behind it its only tree is a chain without faults. -/
structure IsOperand (text : List Char) (node : Node) : Prop where
  ends : ∃ tokens, EndsInToken text tokens
  outside : hasTopLevel (lexemesOf (classifyAll (scan text))) .terminator = false
  read : parse (text ++ [';']) = [node]
  sound : node.faults = []
  chained : node.isChained = true

/-- An operand is the left side of a division behind it, unless the scanner misreads its end: then
the slash opens a pattern. -/
theorem parse_division {text : List Char} {lexemes : List Lexeme} {node : Node}
    (operand : IsOperand text node) (roles : lexemesOf (classifyAll (scan text)) = lexemes)
    (level : Level 0 lexemes) :
    (¬ Misread lexemes →
      parse (text ++ " / $d;".toList) = [.binaryOp "/" node (.var .scalar "d")]) ∧
    (Misread lexemes →
      parse (text ++ " / $d;".toList) = [.error (ScanFault.inTree ⟨.unterminatedRegex,
        Position.start.after ((Reader.start text).unread ++ [' '])⟩)]) := by
  obtain ⟨⟨tokens, ends⟩, outside, read, sound, chained⟩ := operand
  rw [roles] at outside
  rw [scan_of_tokenize ends.sound, classifyAll_ok, lexemesOf_ok] at roles
  subst roles
  have spelled := Context.start.map_token_lexemes tokens
  have reads : Context.start.Reads (Context.start.lexemes tokens) := congrArg _ spelled
  have classified (items : List Scanned) : parseItems (classifyAll (tokens.map .ok ++ items)) =
      parseItems ((Context.start.lexemes tokens).map .ok ++
        classifyAfter (Context.start.after tokens).previous items) :=
    congrArg parseItems (Context.start.classifyAfter_ok tokens items)
  obtain ⟨place, scanned⟩ := scan_semicolon ends
  rw [parse, scanned, classified] at read
  have whole : parseItems ((Context.start.lexemes tokens ++
      [(⟨⟨.semicolon, ";", place⟩, .terminator⟩ : Lexeme)]).map .ok) = [node] := by
    rw [List.map_append]
    exact read
  obtain ⟨endsChain, ⟨further, takes, inside, resumed⟩, divided⟩ :=
    parseItems_divided reads level outside rfl whole sound chained
  have judged := reads.afterOperand_iff_misread endsChain
  rw [spelled] at judged
  constructor
  · intro readable
    rw [← judged, Bool.not_eq_false] at readable
    obtain ⟨place, place', place'', scanned⟩ := scan_division ends readable
    have division : IsDivision .scalar ⟨⟨.operator, "/", place⟩, .binaryOperator⟩
        ⟨⟨.var .scalar, "$d", place'⟩, .var⟩ := ⟨rfl, rfl, rfl, rfl, rfl⟩
    have terminator : Lexeme.category ⟨⟨.semicolon, ";", place''⟩, .terminator⟩ = .terminator := rfl
    have parsed := divided division terminator
    have named : Node.ofSpelling .scalar "$d" = .var .scalar "d" := rfl
    rw [List.append_assoc, List.map_append] at parsed
    rw [parse, scanned, classified, ← named]
    exact parsed
  · intro misread
    obtain ⟨place, place', scanned⟩ := scan_pattern ends (judged.mpr misread)
    have plain : ∀ lexeme ∈ [(⟨⟨.var .scalar, "$d", place⟩, .var⟩ : Lexeme)],
        lexeme.category.delta = 0 ∧ lexeme.category ≠ .terminator := by
      simp [Category.delta, Category.isOpener, Category.isCloser]
    rw [parse, scanned, classified]
    exact parseItems_fault takes inside resumed plain _ _

/-- A step is an operand. -/
theorem isOperand_step : IsOperand "$i++".toList (.unaryOp "++" (.var .scalar "i") true) := by
  refine ⟨⟨_, rfl, _, _, .tail _ (.head _), by rfl⟩, by rfl, ?_, rfl, rfl⟩
  with_unfolding_all rfl

/-- An entry of a hash is divided, and behind a step there is a pattern without its end. -/
theorem parse_division_step :
    parse ("$h\x7b1\x7d".toList ++ " / $d;".toList) =
        [.binaryOp "/" (.access .hashElement (.var .hash "h") (.number "1")) (.var .scalar "d")] ∧
      parse ("$i++".toList ++ " / $d;".toList) =
        [.error ⟨.scan .unterminatedRegex, ⟨1, 6⟩⟩] := by
  constructor
  · have roles : lexemesOf (classifyAll (scan "$h\x7b1\x7d".toList)) =
        [⟨⟨.var .scalar, "$h", ⟨1, 1⟩⟩, .var⟩, ⟨⟨.openBrace, "\x7b", ⟨1, 3⟩⟩, .leftBrace⟩,
          ⟨⟨.number, "1", ⟨1, 4⟩⟩, .literal⟩, ⟨⟨.closeBrace, "\x7d", ⟨1, 5⟩⟩, .rightBrace⟩] := by
      rfl
    have operand : IsOperand "$h\x7b1\x7d".toList
        (.access .hashElement (.var .hash "h") (.number "1")) := by
      refine ⟨⟨_, rfl, _, _, .tail _ (.tail _ (.tail _ (.head _))), by rfl⟩, by rfl, ?_, rfl, rfl⟩
      with_unfolding_all rfl
    refine (parse_division operand roles (by decide)).1 fun misread => ?_
    have reads : Context.start.Reads [⟨⟨.var .scalar, "$h", ⟨1, 1⟩⟩, .var⟩,
        ⟨⟨.openBrace, "\x7b", ⟨1, 3⟩⟩, .leftBrace⟩, ⟨⟨.number, "1", ⟨1, 4⟩⟩, .literal⟩,
        ⟨⟨.closeBrace, "\x7d", ⟨1, 5⟩⟩, .rightBrace⟩] := rfl
    exact Bool.noConfusion (reads.afterOperand_of_misread misread)
  · have roles : lexemesOf (classifyAll (scan "$i++".toList)) =
        [⟨⟨.var .scalar, "$i", ⟨1, 1⟩⟩, .var⟩, ⟨⟨.operator, "++", ⟨1, 3⟩⟩, .unaryOperator⟩] := by
      rfl
    exact (parse_division isOperand_step roles (by decide)).2
      (.operator [⟨⟨.var .scalar, "$i", ⟨1, 1⟩⟩, .var⟩] (by decide))

/-- Three operands that are not divided: a step, braces behind parentheses, and a call whose last
bracket ends the statement, since an attribute inside it passes over a bracket. -/
theorem undivided_operands :
    (IsOperand "$i++".toList (.unaryOp "++" (.var .scalar "i") true) ∧
      parse ("$i++".toList ++ " / $d;".toList) ≠
        [.binaryOp "/" (.unaryOp "++" (.var .scalar "i") true) (.var .scalar "d")]) ∧
    (IsOperand "($x)\x7b1\x7d".toList (.access .hashElement (.var .hash "x") (.number "1")) ∧
      parse ("($x)\x7b1\x7d".toList ++ " / $d;".toList) ≠
        [.binaryOp "/" (.access .hashElement (.var .hash "x") (.number "1"))
          (.var .scalar "d")]) ∧
    IsOperand "$f->(do\x7bsub f :a(])\x7d)".toList
        (.codeCall (.var .scalar "f") [.doBlock [.sub (some "f") [] []]]) ∧
      parse ("$f->(do\x7bsub f :a(])\x7d)".toList ++ " / $d;".toList) ≠
        [.binaryOp "/" (.codeCall (.var .scalar "f") [.doBlock [.sub (some "f") [] []]])
          (.var .scalar "d")] := by
  have step : parse ("$i++".toList ++ " / $d;".toList) =
      [.error ⟨.scan .unterminatedRegex, ⟨1, 6⟩⟩] := by
    with_unfolding_all rfl
  have braces : parse ("($x)\x7b1\x7d".toList ++ " / $d;".toList) =
      [.error ⟨.scan .unterminatedRegex, ⟨1, 9⟩⟩] := by
    with_unfolding_all rfl
  have crossed : parse ("$f->(do\x7bsub f :a(])\x7d)".toList ++ " / $d;".toList) =
      [.codeCall (.var .scalar "f") [.doBlock [.sub (some "f") [] []]],
        .error ⟨.unexpected "$d", ⟨1, 25⟩⟩] := by
    with_unfolding_all rfl
  refine ⟨⟨isOperand_step, by rw [step]; simp⟩, ⟨?_, by rw [braces]; simp⟩, ?_,
    by rw [crossed]; simp⟩
  · refine ⟨⟨_, rfl, _, _, .tail _ (.tail _ (.tail _ (.tail _ (.tail _ (.head _))))), by rfl⟩,
      by rfl, ?_, rfl, rfl⟩
    with_unfolding_all rfl
  · refine ⟨⟨_, rfl, _, _, .tail _ (.tail _ (.tail _ (.tail _ (.tail _ (.tail _ (.tail _ (.tail _
      (.tail _ (.tail _ (.tail _ (.tail _ (.tail _ (.head _))))))))))))), ?_⟩, by rfl, ?_, rfl,
      rfl⟩
    · decide +kernel
    · with_unfolding_all rfl

end SigilScript
