import SigilScript.Boundary
import SigilScript.Grammar.Basic
import SigilScript.Proofs.Node.Moved

/-! # What is asked of lexemes does not depend on their places

Every question about a lexeme, and every search through a list of lexemes, has the same answer
when the lexemes are moved: a search by category finds the same cut with its parts moved.
-/

namespace SigilScript

variable {move : Position → Position}

namespace Lexeme

-- By cases and not by `rfl` alone: so `simp` rewrites the test of a conditional with its decider.

@[simp] theorem category_moved (lexeme : Lexeme) :
    (lexeme.moved move).category = lexeme.category := by
  cases lexeme; rfl

@[simp] theorem text_moved (lexeme : Lexeme) : (lexeme.moved move).text = lexeme.text := by
  cases lexeme; rfl

@[simp] theorem position_moved (lexeme : Lexeme) :
    (lexeme.moved move).position = move lexeme.position := by
  cases lexeme; rfl

@[simp] theorem kind_moved (lexeme : Lexeme) :
    (lexeme.moved move).token.kind = lexeme.token.kind := by
  cases lexeme; rfl

@[simp] theorem isWord_moved (lexeme : Lexeme) : (lexeme.moved move).isWord = lexeme.isWord := by
  cases lexeme; rfl

@[simp] theorem isFatComma_moved (lexeme : Lexeme) :
    (lexeme.moved move).isFatComma = lexeme.isFatComma := by
  cases lexeme; rfl

@[simp] theorem isSpelled_moved (lexeme : Lexeme) (category : Category) (text : String) :
    (lexeme.moved move).isSpelled category text = lexeme.isSpelled category text := by
  cases lexeme; rfl

@[simp] theorem isOperator_moved (lexeme : Lexeme) (spelling : String) :
    (lexeme.moved move).isOperator spelling = lexeme.isOperator spelling := by
  cases lexeme; rfl

@[simp] theorem startsOperand_moved (lexeme : Lexeme) :
    (lexeme.moved move).startsOperand = lexeme.startsOperand := by
  cases lexeme; rfl

@[simp] theorem startsNamedOperand_moved (lexeme : Lexeme) :
    (lexeme.moved move).startsNamedOperand = lexeme.startsNamedOperand := by
  cases lexeme; rfl

@[simp] theorem rulesOutFilehandle_moved (lexeme : Lexeme) :
    (lexeme.moved move).rulesOutFilehandle = lexeme.rulesOutFilehandle := by
  cases lexeme; rfl

@[simp] theorem isDefaultOperator_moved (lexeme : Lexeme) :
    (lexeme.moved move).isDefaultOperator = lexeme.isDefaultOperator := by
  cases lexeme; rfl

@[simp] theorem isModifier_moved (lexeme : Lexeme) :
    (lexeme.moved move).isModifier = lexeme.isModifier := by
  cases lexeme; rfl

@[simp] theorem asVar?_moved (lexeme : Lexeme) : (lexeme.moved move).asVar? = lexeme.asVar? := by
  cases lexeme; rfl

@[simp] theorem unexpected_moved (lexeme : Lexeme) :
    (lexeme.moved move).unexpected = lexeme.unexpected.moved move := by
  cases lexeme; rfl

@[simp] theorem missingOperand_moved (lexeme : Lexeme) :
    (lexeme.moved move).missingOperand = lexeme.missingOperand.moved move := by
  cases lexeme; rfl

end Lexeme

/-- A variable holds no place. -/
@[simp] theorem Node.moved_ofSpelling (sigil : Sigil) (spelling : String) :
    (Node.ofSpelling sigil spelling).moved move = Node.ofSpelling sigil spelling := by
  simp only [Node.ofSpelling]
  split <;> rfl

theorem Lexeme.moved_of_asVar? {lexeme : Lexeme} {holder : Node}
    (spelled : lexeme.asVar? = some holder) : holder.moved move = holder := by
  simp only [Lexeme.asVar?] at spelled
  split at spelled
  · obtain rfl := Option.some.inj spelled
    exact Node.moved_ofSpelling _ _
  · contradiction

@[simp] theorem Node.moved_expected (wanted : Construct) (found : Option Lexeme)
    (anchor : Position) :
    (Node.expected wanted found anchor).moved move =
      Node.expected wanted (found.map (Lexeme.moved move)) (move anchor) := by
  cases found <;> rfl

@[simp] theorem Node.moved_finish (parse : Parse Node) :
    (Node.finish parse).moved move =
      Node.finish (Prod.map (Node.moved move) (List.map (Lexeme.moved move)) parse) := by
  rcases parse with ⟨node, _ | ⟨extra, rest⟩⟩ <;> rfl

@[simp] theorem nextIs_moved (category : Category) (rest : List Lexeme) :
    nextIs category (rest.map (Lexeme.moved move)) = nextIs category rest := by
  cases rest <;> rfl

theorem head?_any_moved {asked : Lexeme → Bool}
    (same : ∀ lexeme, asked (lexeme.moved move) = asked lexeme) (rest : List Lexeme) :
    (rest.map (Lexeme.moved move)).head?.any asked = rest.head?.any asked := by
  cases rest with
  | nil => rfl
  | cons next rest => exact same next

@[simp] theorem lastPosition_moved (lexeme : Lexeme) (rest : List Lexeme) :
    lastPosition (lexeme.moved move) (rest.map (Lexeme.moved move)) =
      move (lastPosition lexeme rest) := by
  simp only [lastPosition, List.getLastD_eq_getLast?, List.getLast?_map]
  cases rest.getLast? <;> rfl

@[simp] theorem barewordKey?_moved (lexemes : List Lexeme) :
    barewordKey? (lexemes.map (Lexeme.moved move)) = barewordKey? lexemes := by
  rcases lexemes with _ | ⟨first, _ | ⟨second, _ | ⟨third, rest⟩⟩⟩ <;> rfl

@[simp] theorem dropWhile_comma_moved (rest : List Lexeme) :
    (rest.map (Lexeme.moved move)).dropWhile (fun next => next.category = .comma) =
      (rest.dropWhile fun next => next.category = .comma).map (Lexeme.moved move) := by
  rw [List.dropWhile_map]
  rfl

/-! ## Searches -/

/-- A cut whose parts are moved. -/
def Cut.moved (move : Position → Position) (cut : Cut) : Cut :=
  ⟨cut.before.map (Lexeme.moved move), cut.found.moved move,
    cut.after.map (Lexeme.moved move)⟩

theorem Cut.map_moved_push (lexeme : Lexeme) (cut : Option Cut) :
    (cut.map (Cut.moved move)).map (Cut.push (lexeme.moved move)) =
      (cut.map (Cut.push lexeme)).map (Cut.moved move) := by
  cases cut <;> rfl

@[simp] theorem cutAtPartner?_moved (opener closer : Category) (depth : Nat)
    (lexemes : List Lexeme) :
    cutAtPartner? opener closer depth (lexemes.map (Lexeme.moved move)) =
      (cutAtPartner? opener closer depth lexemes).map (Cut.moved move) := by
  induction lexemes generalizing depth with
  | nil => rfl
  | cons lexeme rest ih =>
    simp only [List.map_cons, cutAtPartner?, Lexeme.category_moved, ih, Cut.map_moved_push]
    split
    · rfl
    · split
      · split <;> rfl
      · rfl

theorem cutAtTopLevel?_moved {wanted : Lexeme → Bool}
    (same : ∀ lexeme, wanted (lexeme.moved move) = wanted lexeme) (depth : Nat)
    (lexemes : List Lexeme) :
    cutAtTopLevel? wanted depth (lexemes.map (Lexeme.moved move)) =
      (cutAtTopLevel? wanted depth lexemes).map (Cut.moved move) := by
  induction lexemes generalizing depth with
  | nil => rfl
  | cons lexeme rest ih =>
    simp only [List.map_cons, cutAtTopLevel?, Lexeme.category_moved, same, ih]
    split
    · rfl
    · split
      · rfl
      · rw [Cut.map_moved_push]

@[simp] theorem hasTopLevel_moved (lexemes : List Lexeme) (category : Category) :
    hasTopLevel (lexemes.map (Lexeme.moved move)) category = hasTopLevel lexemes category := by
  rw [hasTopLevel, cutAtTopLevel?_moved (fun _ => rfl), Option.isSome_map, hasTopLevel]

@[simp] theorem cutAtColon?_moved (pending depth : Nat) (lexemes : List Lexeme) :
    cutAtColon? pending depth (lexemes.map (Lexeme.moved move)) =
      (cutAtColon? pending depth lexemes).map (Cut.moved move) := by
  induction lexemes generalizing pending depth with
  | nil => rfl
  | cons lexeme rest ih =>
    simp only [List.map_cons, cutAtColon?, Lexeme.category_moved, ih]
    cases lexeme.category.depthAfter? depth with
    | none =>
      dsimp only
      split
      · rfl
      · split
        · split <;> rfl
        · rfl
    | some inner =>
      simp only [Cut.map_moved_push]
      split
      · rfl
      · split
        · split <;> rfl
        · rfl

/-- A segment whose parts are moved. -/
def Segment.moved (move : Position → Position) (segment : Segment) : Segment :=
  ⟨segment.lexemes.map (Lexeme.moved move), segment.separator.map (Lexeme.moved move)⟩

theorem pushSegment_moved (lexeme : Lexeme) (segments : List Segment) :
    pushSegment (lexeme.moved move) (segments.map (Segment.moved move)) =
      (pushSegment lexeme segments).map (Segment.moved move) := by
  cases segments <;> rfl

theorem segmentsFrom_moved (separator : Category) (depth : Nat) (lexemes : List Lexeme) :
    segmentsFrom separator depth (lexemes.map (Lexeme.moved move)) =
      (segmentsFrom separator depth lexemes).map (Segment.moved move) := by
  induction lexemes generalizing depth with
  | nil => rfl
  | cons lexeme rest ih =>
    simp only [List.map_cons, segmentsFrom, Lexeme.category_moved, ih]
    cases lexeme.category.depthAfter? depth with
    | none =>
      split
      · rfl
      · exact pushSegment_moved lexeme [⟨rest, none⟩]
    | some inner =>
      split
      · rfl
      · exact pushSegment_moved lexeme _

@[simp] theorem segmentsAt_moved (separator : Category) (lexemes : List Lexeme) :
    segmentsAt separator (lexemes.map (Lexeme.moved move)) =
      (segmentsAt separator lexemes).map (Segment.moved move) := by
  cases lexemes with
  | nil => rfl
  | cons lexeme rest => exact segmentsFrom_moved separator 0 (lexeme :: rest)

@[simp] theorem splitTopLevel_moved (lexemes : List Lexeme) (separator : Category) :
    splitTopLevel (lexemes.map (Lexeme.moved move)) separator =
      (splitTopLevel lexemes separator).map (List.map (Lexeme.moved move)) := by
  simp only [splitTopLevel, segmentsAt_moved, List.map_map]
  rfl

/-! ## Statements -/

@[simp] theorem Boundary.offer_moved (boundary : Boundary) (lexeme : Lexeme) :
    boundary.offer (lexeme.moved move) = boundary.offer lexeme := rfl

@[simp] theorem Boundary.extent_moved (boundary : Boundary) (lexemes : List Lexeme) :
    boundary.extent (lexemes.map (Lexeme.moved move)) = boundary.extent lexemes := by
  induction lexemes generalizing boundary with
  | nil => rfl
  | cons lexeme rest ih =>
    simp only [List.map_cons, extent, offer_moved, ih]

@[simp] theorem splitStatements_moved (lexemes : List Lexeme) :
    splitStatements (lexemes.map (Lexeme.moved move)) =
      (splitStatements lexemes).map (List.map (Lexeme.moved move)) := by
  fun_induction splitStatements lexemes with
  | case1 => rw [List.map_nil, splitStatements, List.map_nil]
  | case2 lexeme rest extent ih =>
    have same : Boundary.start.extent (lexeme.moved move :: rest.map (Lexeme.moved move)) =
        extent := Boundary.extent_moved .start (lexeme :: rest)
    rw [List.map_cons, splitStatements, same, ← List.map_cons, ← List.map_drop, ih,
      ← List.map_take, List.map_cons]

end SigilScript
