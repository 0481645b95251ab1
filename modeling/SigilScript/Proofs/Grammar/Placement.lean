import Mathlib.Data.List.Basic
import SigilScript.Proofs.Grammar.Leftover
import SigilScript.Proofs.Lexemes

/-! # Expressions do not depend on places

A grammar follows another under a move of places when, on moved lexemes, it reads the moved tree
of what the other reads. Every production passes this on from the fields of the grammar it leans
on to itself, on lists that are one lexeme longer. The move that changes nothing is a case of its
own: there the statement says that two levels of the grammar read short lists alike.
-/

namespace SigilScript

/-- What was read, moved in its trees and in the lexemes left. -/
def Parse.moved {α : Type} (tree : α → α) (move : Position → Position) (parse : Parse α) :
    Parse α :=
  (tree parse.1, parse.2.map (Lexeme.moved move))

variable {move : Position → Position}

@[simp] theorem Parse.moved_mk {α : Type} (tree : α → α) (value : α) (rest : List Lexeme) :
    Parse.moved tree move (value, rest) = (tree value, rest.map (Lexeme.moved move)) := rfl

@[simp] theorem Node.finish_moved (parse : Parse Node) :
    Node.finish (parse.moved (Node.moved move) move) = (Node.finish parse).moved move := by
  rw [Node.moved_finish]
  rfl

/-! ## Reading without the grammar -/

theorem takeGroup_moved (opener : Lexeme) (rest : List Lexeme) :
    takeGroup (opener.moved move) (rest.map (Lexeme.moved move)) =
      ((takeGroup opener rest).1.map (List.map (Lexeme.moved move)) |>.mapError
          (SyntaxFault.moved move), (takeGroup opener rest).2.map (Lexeme.moved move)) := by
  simp only [takeGroup, Lexeme.category_moved, cutAtPartner?_moved]
  split
  · rfl
  · next closer partner =>
    cases cutAtPartner? opener.category closer 1 rest <;> rfl

/-- The inside of a group is shorter than what stands behind its opener. -/
theorem takeGroup_length {opener : Lexeme} {rest inner after : List Lexeme}
    (taken : takeGroup opener rest = (.ok inner, after)) : inner.length < rest.length := by
  obtain ⟨closer, -, rfl⟩ := takeGroup_ok taken
  simp only [List.length_append, List.length_cons]
  omega

theorem readGroup_moved {α : Type} (tree : α → α) (opener : Lexeme) (rest : List Lexeme)
    {inside inside' : List Lexeme → α} {unclosed unclosed' : SyntaxFault → α}
    (same : ∀ lexemes, lexemes.length < rest.length →
      inside' (lexemes.map (Lexeme.moved move)) = tree (inside lexemes))
    (failed : ∀ fault, unclosed' (fault.moved move) = tree (unclosed fault)) :
    readGroup (opener.moved move) (rest.map (Lexeme.moved move)) inside' unclosed' =
      (readGroup opener rest inside unclosed).moved tree move := by
  simp only [readGroup, takeGroup_moved]
  rcases taken : takeGroup opener rest with ⟨_ | lexemes, after⟩
  · exact Prod.ext (failed _) rfl
  · exact Prod.ext (same _ (takeGroup_length taken)) rfl

theorem readName_moved (wanted : Construct) (anchor : Position) (rest : List Lexeme) :
    readName wanted (move anchor) (rest.map (Lexeme.moved move)) =
      ((readName wanted anchor rest).map (Parse.moved id move)).mapError (Node.moved move) := by
  cases rest with
  | nil => rfl
  | cons word rest =>
    simp only [readName, List.map_cons, Lexeme.isWord_moved]
    split <;> rfl

theorem readVersion_moved (rest : List Lexeme) :
    readVersion (rest.map (Lexeme.moved move)) = (readVersion rest).moved id move := by
  cases rest with
  | nil => rfl
  | cons version rest =>
    simp only [readVersion, List.map_cons, Lexeme.kind_moved]
    split <;> rfl

theorem pushSegment_length {lexeme : Lexeme} {segments : List Segment} {bound : Nat}
    (bounded : ∀ segment ∈ segments, segment.lexemes.length ≤ bound) {segment : Segment}
    (member : segment ∈ pushSegment lexeme segments) : segment.lexemes.length ≤ bound + 1 := by
  cases segments with
  | nil =>
    obtain rfl := List.mem_singleton.mp member
    exact Nat.succ_le_succ (Nat.zero_le _)
  | cons first further =>
    rcases List.mem_cons.mp member with rfl | member
    · exact Nat.succ_le_succ (bounded first List.mem_cons_self)
    · exact Nat.le_succ_of_le (bounded _ (List.mem_cons_of_mem _ member))

theorem segmentsFrom_length {separator : Category} {depth : Nat} {lexemes : List Lexeme}
    {segment : Segment} (member : segment ∈ segmentsFrom separator depth lexemes) :
    segment.lexemes.length ≤ lexemes.length := by
  induction lexemes generalizing depth segment with
  | nil =>
    obtain rfl := List.mem_singleton.mp member
    exact Nat.le_refl 0
  | cons lexeme rest ih =>
    obtain ⟨further, later, same⟩ : ∃ further : List Segment,
        (∀ other ∈ further, other.lexemes.length ≤ rest.length) ∧
          segmentsFrom separator depth (lexeme :: rest) =
            if depth = 0 ∧ lexeme.category = separator then ⟨[], some lexeme⟩ :: further
            else pushSegment lexeme further := by
      rcases within : lexeme.category.depthAfter? depth with _ | inner
      · refine ⟨[⟨rest, none⟩], fun other member => ?_, by simp only [segmentsFrom, within]⟩
        obtain rfl := List.mem_singleton.mp member
        exact Nat.le_refl _
      · refine ⟨segmentsFrom separator inner rest, fun other member => ih member, ?_⟩
        simp only [segmentsFrom, within]
    rw [same] at member
    split at member
    · rcases List.mem_cons.mp member with rfl | member
      · exact Nat.zero_le _
      · exact Nat.le_succ_of_le (later _ member)
    · exact pushSegment_length later member

/-- A segment is no longer than the list it was split from. -/
theorem segmentsAt_length {separator : Category} {lexemes : List Lexeme} {segment : Segment}
    (member : segment ∈ segmentsAt separator lexemes) :
    segment.lexemes.length ≤ lexemes.length := by
  cases lexemes with
  | nil => contradiction
  | cons lexeme rest => exact segmentsFrom_length member

/-- The same attribute with the lexemes of its group moved. -/
def Attribute.moved (move : Position → Position) (mark : Attribute) : Attribute :=
  { mark with args := mark.args.map (List.map (Lexeme.moved move)) }

@[simp] theorem Attribute.text_moved (mark : Attribute) : (mark.moved move).text = mark.text := by
  rcases mark with ⟨name, _ | args⟩
  · rfl
  · simp only [Attribute.moved, Attribute.text, Option.map_some, List.map_map]
    rfl

theorem readAttributeGroup_moved (rest : List Lexeme) :
    readAttributeGroup (rest.map (Lexeme.moved move)) =
      (readAttributeGroup rest).moved (Option.map (List.map (Lexeme.moved move))) move := by
  cases rest with
  | nil => rfl
  | cons opener rest =>
    simp only [readAttributeGroup, List.map_cons, Lexeme.category_moved]
    split
    · exact readGroup_moved (Option.map _) opener rest (fun _ _ => rfl) fun _ => rfl
    · rfl

theorem readAttributesUpTo_moved (count : Nat) (rest : List Lexeme) :
    readAttributesUpTo count (rest.map (Lexeme.moved move)) =
      (readAttributesUpTo count rest).moved (List.map (Attribute.moved move)) move := by
  induction count generalizing rest with
  | zero => rcases rest with _ | ⟨colon, _ | ⟨word, rest⟩⟩ <;> rfl
  | succ count ih =>
    rcases rest with _ | ⟨colon, _ | ⟨word, rest⟩⟩
    · rfl
    · rfl
    · simp only [List.map_cons]
      unfold readAttributesUpTo
      rw [Lexeme.category_moved, Lexeme.isWord_moved]
      split
      · rw [readAttributeGroup_moved]
        rcases readAttributeGroup rest with ⟨args, after⟩
        simp only [Parse.moved_mk, ih]
        rfl
      · rfl

theorem readAttributes_moved (rest : List Lexeme) :
    readAttributes (rest.map (Lexeme.moved move)) =
      (readAttributes rest).moved (List.map (Attribute.moved move)) move := by
  rw [readAttributes, List.length_map, readAttributesUpTo_moved, readAttributes]

namespace Grammar

/-- On moved lexemes, fewer than `n` of them, every production of `g` reads the moved tree of what
the production of `h` reads. -/
structure Follows (move : Position → Position) (n : Nat) (g h : Grammar) : Prop where
  whole : ∀ anchor lexemes, lexemes.length < n →
    g.whole (move anchor) (lexemes.map (Lexeme.moved move)) =
      (h.whole anchor lexemes).moved move
  operation : ∀ level lexeme rest, rest.length < n →
    g.operation level (lexeme.moved move) (rest.map (Lexeme.moved move)) =
      (h.operation level lexeme rest).moved (Node.moved move) move
  climb : ∀ level node rest, rest.length < n →
    g.climb level (node.moved move) (rest.map (Lexeme.moved move)) =
      (h.climb level node rest).moved (Node.moved move) move
  operand : ∀ lexeme rest, rest.length < n →
    g.operand (lexeme.moved move) (rest.map (Lexeme.moved move)) =
      (h.operand lexeme rest).moved (Node.moved move) move
  primary : ∀ lexeme rest, rest.length < n →
    g.primary (lexeme.moved move) (rest.map (Lexeme.moved move)) =
      (h.primary lexeme rest).moved (Node.moved move) move
  chain : ∀ node rest, rest.length < n →
    g.chain (node.moved move) (rest.map (Lexeme.moved move)) =
      (h.chain node rest).moved (Node.moved move) move
  items : ∀ rest, rest.length < n →
    g.items (rest.map (Lexeme.moved move)) =
      (h.items rest).moved (List.map (Node.moved move)) move
  arguments : ∀ rest, rest.length < n →
    g.arguments (rest.map (Lexeme.moved move)) =
      (h.arguments rest).moved (List.map (Node.moved move)) move
  attributes : ∀ rest,
    g.attributes (rest.map (Lexeme.moved move)) =
      (h.attributes rest).moved (List.map (Attribute.moved move)) move
  clauses : ∀ finish rest, rest.length < n →
    g.clauses (move finish) (rest.map (Lexeme.moved move)) =
      (h.clauses finish rest).moved (List.map (Clause.map (Node.moved move))) move
  statements : ∀ lexemes, lexemes.length < n →
    g.statements (lexemes.map (Lexeme.moved move)) = (h.statements lexemes).map (Node.moved move)

namespace Follows

variable {n : Nat} {g h : Grammar} (f : Follows move n g h) (c : h.Consumes)
include f

/-! ## Lists and subscripts -/

theorem readElements (anchor : Position) (lexemes : List Lexeme) (short : lexemes.length < n) :
    g.readElements (move anchor) (lexemes.map (Lexeme.moved move)) =
      (h.readElements anchor lexemes).map (Node.moved move) := by
  simp only [Grammar.readElements, segmentsAt_moved, List.filterMap_map, List.map_filterMap]
  apply List.filterMap_congr
  intro segment member
  have within := segmentsAt_length member
  rcases segment with ⟨inner, separator⟩
  have key : (separator.map (Lexeme.moved move)).filter Lexeme.isFatComma =
      (separator.filter Lexeme.isFatComma).map (Lexeme.moved move) := by
    cases separator with
    | none => rfl
    | some comma =>
      simp only [Option.map_some, Option.filter_some, Lexeme.isFatComma_moved]
      split <;> rfl
  simp only [Function.comp_apply, Segment.moved, List.isEmpty_map, barewordKey?_moved, key,
    f.whole anchor inner (Nat.lt_of_le_of_lt within short)]
  split
  · rfl
  · cases separator.filter Lexeme.isFatComma with
    | none => rfl
    | some comma =>
      simp only [Option.map_some, Option.bind_some]
      cases barewordKey? inner <;> rfl

theorem readSubscript (anchor : Position) (lexemes : List Lexeme) (short : lexemes.length < n) :
    g.readSubscript (move anchor) (lexemes.map (Lexeme.moved move)) =
      (h.readSubscript anchor lexemes).moved move := by
  simp only [Grammar.readSubscript, List.isEmpty_map, hasTopLevel_moved,
    f.readElements anchor lexemes short, f.whole anchor lexemes short]
  split
  · rfl
  · split
    · rw [Node.moved_list]
    · rfl

theorem readHashKey (anchor : Position) (lexemes : List Lexeme) (short : lexemes.length < n) :
    g.readHashKey (move anchor) (lexemes.map (Lexeme.moved move)) =
      (h.readHashKey anchor lexemes).moved move := by
  simp only [Grammar.readHashKey, barewordKey?_moved, f.readSubscript anchor lexemes short]
  cases barewordKey? lexemes <;> rfl

theorem readIndex (opener : Lexeme) (lexemes : List Lexeme) (short : lexemes.length < n) :
    g.readIndex (opener.moved move) (lexemes.map (Lexeme.moved move)) =
      (h.readIndex opener lexemes).moved move := by
  simp only [Grammar.readIndex, Lexeme.category_moved, Lexeme.position_moved,
    f.readSubscript opener.position lexemes short, f.readHashKey opener.position lexemes short]
  split <;> rfl

theorem readGroupElements (opener : Lexeme) (rest : List Lexeme) (short : rest.length ≤ n) :
    g.readGroupElements (opener.moved move) (rest.map (Lexeme.moved move)) =
      (h.readGroupElements opener rest).moved (List.map (Node.moved move)) move :=
  readGroup_moved _ opener rest
    (fun lexemes within => f.readElements opener.position lexemes
      (Nat.lt_of_lt_of_le within short)) fun _ => rfl

include c in
theorem readArguments (rest : List Lexeme) (short : rest.length ≤ n) :
    g.readArguments (rest.map (Lexeme.moved move)) =
      (h.readArguments rest).moved (List.map (Node.moved move)) move := by
  cases rest with
  | nil => rfl
  | cons lexeme rest =>
    have left := (c.operation Level.assignment lexeme rest).length_le
    rw [List.map_cons, Grammar.readArguments, Grammar.readArguments]
    rw [f.operation Level.assignment lexeme rest short, Lexeme.startsOperand_moved]
    rcases read : h.operation Level.assignment lexeme rest with ⟨argument, after⟩
    rw [read] at left
    have further := f.arguments (after.dropWhile fun next => next.category = .comma)
      (Nat.lt_of_le_of_lt (Nat.le_trans (List.dropWhile_suffix _).length_le left) short)
    simp only [Parse.moved_mk, nextIs_moved, dropWhile_comma_moved, further]
    split
    · split <;> rfl
    · rfl

include c in
theorem readCallArguments (rest : List Lexeme) (short : rest.length ≤ n) :
    g.readCallArguments (rest.map (Lexeme.moved move)) =
      (h.readCallArguments rest).moved (List.map (Node.moved move)) move := by
  cases rest with
  | nil => rfl
  | cons opener rest =>
    have group := f.readGroupElements opener rest (Nat.le_of_lt short)
    have listed := f.readArguments c (opener :: rest) short
    simp only [List.map_cons] at listed ⊢
    simp only [Grammar.readCallArguments, Lexeme.category_moved, group, listed]
    split <;> rfl

theorem readMethodArguments (rest : List Lexeme) (short : rest.length ≤ n) :
    g.readMethodArguments (rest.map (Lexeme.moved move)) =
      (h.readMethodArguments rest).moved (List.map (Node.moved move)) move := by
  cases rest with
  | nil => rfl
  | cons opener rest =>
    simp only [List.map_cons, Grammar.readMethodArguments, Lexeme.category_moved,
      f.readGroupElements opener rest (Nat.le_of_lt short)]
    split <;> rfl

/-! ## Blocks and signatures -/

theorem readBlock (finish : Position) (rest : List Lexeme) (short : rest.length ≤ n) :
    g.readBlock (move finish) (rest.map (Lexeme.moved move)) =
      (h.readBlock finish rest).moved (List.map (Node.moved move)) move := by
  cases rest with
  | nil => rfl
  | cons opener rest =>
    simp only [List.map_cons, Grammar.readBlock, Lexeme.category_moved]
    split
    · exact readGroup_moved _ opener rest
        (fun lexemes within => f.statements lexemes (Nat.lt_trans within short)) fun _ => rfl
    · rfl

theorem readDefault (anchor : Position) (segment : List Lexeme) (short : segment.length ≤ n) :
    g.readDefault (move anchor) (segment.map (Lexeme.moved move)) =
      (h.readDefault anchor segment).map (Node.moved move) := by
  cases segment with
  | nil => rfl
  | cons op rest =>
    simp only [List.map_cons, Grammar.readDefault, Lexeme.isDefaultOperator_moved,
      List.isEmpty_map, Lexeme.position_moved, f.whole op.position rest short]
    split
    · split <;> rfl
    · rfl

theorem readParameter (anchor : Position) (segment : List Lexeme) (short : segment.length ≤ n) :
    g.readParameter (move anchor) (segment.map (Lexeme.moved move)) =
      (h.readParameter anchor segment).moved move := by
  cases segment with
  | nil => rfl
  | cons first rest =>
    simp only [List.map_cons, Grammar.readParameter, List.head?_cons, Option.bind_some,
      Lexeme.asVar?_moved, List.tail_cons, f.readDefault anchor rest (Nat.le_of_lt short)]
    cases spelled : first.asVar? with
    | none => rfl
    | some holder => simp only [Node.moved, Node.movedOption_eq_map, Lexeme.moved_of_asVar? spelled]

theorem readParameters (rest : List Lexeme) (short : rest.length ≤ n) :
    g.readParameters (rest.map (Lexeme.moved move)) =
      (h.readParameters rest).moved (List.map (Node.moved move)) move := by
  cases rest with
  | nil => rfl
  | cons opener rest =>
    simp only [List.map_cons, Grammar.readParameters, Lexeme.category_moved]
    split
    · refine readGroup_moved _ opener rest (fun lexemes within => ?_) fun _ => rfl
      have nonempty : (fun segment : List Lexeme => !segment.isEmpty) ∘
          List.map (Lexeme.moved move) = fun segment => !segment.isEmpty := by
        funext segment
        simp only [Function.comp_apply, List.isEmpty_map]
      simp only [splitTopLevel_moved, List.filter_map, nonempty, List.map_map]
      apply List.map_congr_left
      intro segment member
      obtain ⟨part, found, rfl⟩ := List.mem_map.mp (List.mem_filter.mp member).1
      exact f.readParameter opener.position part.lexemes
        (Nat.le_trans (segmentsAt_length found) (Nat.le_of_lt (Nat.lt_trans within short)))
    · rfl

/-! ## Primaries -/

theorem readRight (op : Lexeme) (level : Nat) (rest : List Lexeme) (short : rest.length ≤ n) :
    g.readRight (op.moved move) level (rest.map (Lexeme.moved move)) =
      (h.readRight op level rest).moved (Node.moved move) move := by
  cases rest with
  | nil => rfl
  | cons lexeme rest => exact f.operation level lexeme rest short

theorem readDereference (sigil : Sigil) (lexeme : Lexeme) (rest : List Lexeme)
    (short : rest.length ≤ n) :
    g.readDereference sigil (lexeme.moved move) (rest.map (Lexeme.moved move)) =
      (h.readDereference sigil lexeme rest).moved (Node.moved move) move := by
  cases rest with
  | nil => rfl
  | cons next after =>
    have group : readGroup (next.moved move) (after.map (Lexeme.moved move))
        (g.whole (next.moved move).position) .error =
          (readGroup next after (h.whole next.position) .error).moved (Node.moved move) move :=
      readGroup_moved _ next after
        (fun lexemes within => f.whole next.position lexemes (Nat.lt_trans within short))
        fun _ => rfl
    simp only [List.map_cons, Grammar.readDereference, Lexeme.category_moved, Lexeme.text_moved,
      group, f.primary next after short]
    split
    · split <;> rfl
    · split
      · split <;> rfl
      · rfl

include c in
theorem readDeclaration (lexeme : Lexeme) (rest : List Lexeme) (short : rest.length ≤ n) :
    g.readDeclaration (lexeme.moved move) (rest.map (Lexeme.moved move)) =
      (h.readDeclaration lexeme rest).moved (Node.moved move) move := by
  cases rest with
  | nil => rfl
  | cons next rest =>
    have left := (c.primary next rest).length_le
    rw [List.map_cons, Grammar.readDeclaration, Grammar.readDeclaration, Lexeme.category_moved,
      Lexeme.text_moved]
    split
    · rw [f.readGroupElements next rest (Nat.le_of_lt short)]
      rcases h.readGroupElements next rest with ⟨targets, behind⟩
      simp only [Parse.moved_mk, Node.moved_declare]
    · rw [f.primary next rest short]
      rcases read : h.primary next rest with ⟨primary, after⟩
      rw [read] at left
      have further := f.chain primary after (Nat.lt_of_le_of_lt left short)
      rcases chained : h.chain primary after with ⟨target, behind⟩
      rw [chained] at further
      simp only [Parse.moved_mk, further, chained, Node.moved_declare, List.map_cons,
        List.map_nil]

theorem readParenthesized (opener : Lexeme) (rest : List Lexeme) (short : rest.length ≤ n) :
    g.readParenthesized (opener.moved move) (rest.map (Lexeme.moved move)) =
      (h.readParenthesized opener rest).moved (Node.moved move) move := by
  refine readGroup_moved _ opener rest (fun lexemes within => ?_) fun _ => rfl
  have short := Nat.lt_of_lt_of_le within short
  simp only [List.isEmpty_map, hasTopLevel_moved, Lexeme.position_moved,
    f.readElements opener.position lexemes short, f.whole opener.position lexemes short]
  split
  · rfl
  · split
    · rw [Node.moved_list]
    · rfl

theorem readFilehandle (rest : List Lexeme) (short : rest.length ≤ n) :
    g.readFilehandle (rest.map (Lexeme.moved move)) =
      (h.readFilehandle rest).moved (Option.map (Node.moved move)) move := by
  cases rest with
  | nil => rfl
  | cons first rest =>
    have handle : first.asVar?.map (Node.moved move) = first.asVar? := by
      cases spelled : first.asVar? with
      | none => rfl
      | some holder => rw [Option.map_some, Lexeme.moved_of_asVar? spelled]
    simp only [List.map_cons, Grammar.readFilehandle, Lexeme.category_moved, Lexeme.text_moved,
      Lexeme.asVar?_moved, nextIs_moved, head?_any_moved Lexeme.rulesOutFilehandle_moved]
    split
    · exact readGroup_moved (Option.map _) first rest (fun lexemes within => congrArg some
        (f.whole first.position lexemes (Nat.lt_trans within short))) fun _ => rfl
    · split <;> rfl
    · split
      · rw [Parse.moved_mk, handle]
      · rfl
    · rfl

end Follows

/-- A list of values, moved, is one value, moved. -/
theorem valueOf_moved (values : List Node) :
    valueOf (values.map (Node.moved move)) = (valueOf values).map (Node.moved move) := by
  rcases values with _ | ⟨value, _ | ⟨second, values⟩⟩
  · rfl
  · rfl
  · exact congrArg some (Node.moved_list (value :: second :: values)).symm

theorem acceptsSubscript_moved (node : Node) :
    acceptsSubscript (node.moved move) = acceptsSubscript node := by
  cases node with
  | access kind => cases kind <;> rfl
  | _ => rfl

theorem isPlace_moved (node : Node) : isPlace (node.moved move) = isPlace node := by
  cases node with
  | access kind => cases kind <;> rfl
  | _ => rfl

theorem container_moved (sigil : Sigil) (node : Node) :
    container sigil (node.moved move) = (container sigil node).moved move := by
  cases node <;> rfl

theorem takesSlice_moved (node : Node) : takesSlice (node.moved move) = takesSlice node := by
  cases node with
  | var sigil => cases sigil <;> rfl
  | dereference sigil => cases sigil <;> rfl
  | _ => rfl

theorem indexed_moved (base : Node) (opener : Lexeme) (index : Node) :
    indexed (base.moved move) (opener.moved move) (index.moved move) =
      (indexed base opener index).moved move := by
  simp only [indexed, Lexeme.category_moved, takesSlice_moved, container_moved]
  split
  · split <;> rfl
  · split <;> rfl

theorem readJump_moved (jump : Jump) (rest : List Lexeme) :
    readJump jump (rest.map (Lexeme.moved move)) =
      (readJump jump rest).moved (Node.moved move) move := by
  cases rest with
  | nil => rfl
  | cons label rest =>
    simp only [List.map_cons, readJump, Lexeme.category_moved]
    split <;> rfl

namespace Follows

variable {n : Nat} {g h : Grammar} (f : Follows move n g h) (c : h.Consumes)
include f

include c in
theorem readCall (name : String) (rest : List Lexeme) (short : rest.length ≤ n) :
    g.readCall name (rest.map (Lexeme.moved move)) =
      (h.readCall name rest).moved (Node.moved move) move := by
  unfold Grammar.readCall
  rw [f.readCallArguments c rest short]
  rcases h.readCallArguments rest with ⟨args, after⟩
  simp only [Parse.moved_mk, Node.moved, Node.movedAll_eq_map]

include c in
theorem readAnonymousSub (keyword : Lexeme) (rest : List Lexeme) (short : rest.length ≤ n) :
    g.readAnonymousSub (keyword.moved move) (rest.map (Lexeme.moved move)) =
      (h.readAnonymousSub keyword rest).moved (Node.moved move) move := by
  have left := (Consumes.readParameters (g := h) rest).length_le
  unfold Grammar.readAnonymousSub
  rw [f.readParameters rest short]
  rcases read : h.readParameters rest with ⟨params, afterParams⟩
  rw [read] at left
  have marked := (c.attributes afterParams).length_le
  rcases readMarks : h.attributes afterParams with ⟨marks, afterMarks⟩
  rw [readMarks] at marked
  simp only [Parse.moved_mk, f.attributes, readMarks, lastPosition_moved]
  rw [f.readBlock (lastPosition keyword rest) afterMarks
    (Nat.le_trans marked (Nat.le_trans left short))]
  rcases h.readBlock (lastPosition keyword rest) afterMarks with ⟨body, after⟩
  simp only [Parse.moved_mk, Node.moved, Node.movedAll_eq_map]

theorem readRequire (keyword : Lexeme) (rest : List Lexeme) (short : rest.length ≤ n) :
    g.readRequire (keyword.moved move) (rest.map (Lexeme.moved move)) =
      (h.readRequire keyword rest).moved (Node.moved move) move := by
  have word : (rest.map (Lexeme.moved move)).head?.filter Lexeme.isWord =
      (rest.head?.filter Lexeme.isWord).map (Lexeme.moved move) := by
    cases rest with
    | nil => rfl
    | cons first rest =>
      simp only [List.map_cons, List.head?_cons, Option.filter_some, Lexeme.isWord_moved]
      split <;> rfl
  unfold Grammar.readRequire
  rw [word, f.readRight keyword Level.namedUnary rest short, ← List.map_tail]
  cases rest.head?.filter Lexeme.isWord with
  | none => rfl
  | some word => rfl

include c in
theorem readOutput (output : Output) (rest : List Lexeme) (short : rest.length ≤ n) :
    g.readOutput output (rest.map (Lexeme.moved move)) =
      (h.readOutput output rest).moved (Node.moved move) move := by
  have left := (Consumes.readFilehandle (g := h) rest).length_le
  unfold Grammar.readOutput
  rw [f.readFilehandle rest short]
  rcases read : h.readFilehandle rest with ⟨filehandle, after⟩
  rw [read] at left
  simp only [Parse.moved_mk]
  rw [f.readArguments c after (Nat.le_trans left short)]
  rcases h.readArguments after with ⟨args, after⟩
  simp only [Parse.moved_mk, Node.moved, Node.movedAll_eq_map, Node.movedOption_eq_map]

include c in
theorem readAlarm (alarm : Alarm) (rest : List Lexeme) (short : rest.length ≤ n) :
    g.readAlarm alarm (rest.map (Lexeme.moved move)) =
      (h.readAlarm alarm rest).moved (Node.moved move) move := by
  unfold Grammar.readAlarm
  rw [f.readCallArguments c rest short]
  rcases h.readCallArguments rest with ⟨args, after⟩
  simp only [Parse.moved_mk, Node.moved, Node.movedAll_eq_map]

include c in
theorem readKeyword (keyword : Lexeme) (rest : List Lexeme) (short : rest.length ≤ n) :
    g.readKeyword (keyword.moved move) (rest.map (Lexeme.moved move)) =
      (h.readKeyword keyword rest).moved (Node.moved move) move := by
  unfold Grammar.readKeyword
  simp only [Lexeme.text_moved, nextIs_moved, lastPosition_moved, f.readCall c _ rest short,
    f.readOutput c _ rest short, f.readBlock (lastPosition keyword rest) rest short,
    f.readRight keyword _ rest short, f.readRequire keyword rest short,
    f.readAnonymousSub c keyword rest short, f.readAlarm c _ rest short,
    f.readArguments c rest short, readJump_moved, Lexeme.unexpected_moved]
  split
  · split <;> rfl
  · split <;> rfl
  · split
    · rfl
    · split
      · simp only [Parse.moved, Node.moved, Node.movedAll_eq_map]
      · rfl
  · split <;> rfl
  · rfl
  · rfl
  · rfl
  · simp only [Parse.moved, Node.moved, Node.movedOption_eq_map, valueOf_moved]
  · rfl
  · rfl
  · rfl
  · rfl

theorem readNamedOperand (rest : List Lexeme) (short : rest.length ≤ n) :
    g.readNamedOperand (rest.map (Lexeme.moved move)) =
      (h.readNamedOperand rest).moved (List.map (Node.moved move)) move := by
  cases rest with
  | nil => rfl
  | cons lexeme rest =>
    rw [List.map_cons, Grammar.readNamedOperand, Grammar.readNamedOperand,
      Lexeme.startsNamedOperand_moved, f.operation Level.namedUnary lexeme rest short]
    split <;> rfl

theorem readLeadingBlock (name : Lexeme) (rest : List Lexeme) (short : rest.length ≤ n) :
    g.readLeadingBlock (name.moved move) (rest.map (Lexeme.moved move)) =
      (h.readLeadingBlock name rest).moved (List.map (Node.moved move)) move := by
  unfold Grammar.readLeadingBlock
  rw [Lexeme.text_moved, nextIs_moved, lastPosition_moved,
    f.readBlock (lastPosition name rest) rest short]
  rcases h.readBlock (lastPosition name rest) rest with ⟨body, after⟩
  simp only [Parse.moved_mk, nextIs_moved, ← List.map_tail]
  split
  · split <;> simp only [Parse.moved_mk, List.map_cons, List.map_nil, Node.moved,
      Node.movedAll_eq_map]
  · rfl

include c in
theorem readBuiltin (name : Lexeme) (rest : List Lexeme) (short : rest.length ≤ n) :
    g.readBuiltin (name.moved move) (rest.map (Lexeme.moved move)) =
      (h.readBuiltin name rest).moved (Node.moved move) move := by
  have left := (Consumes.readLeadingBlock (g := h) name rest).length_le
  unfold Grammar.readBuiltin
  rw [Lexeme.text_moved, f.readNamedOperand rest short, f.readLeadingBlock name rest short]
  split
  · rfl
  · split
    · simp only [Parse.moved, Node.moved, Node.movedAll_eq_map]
    · rcases read : h.readLeadingBlock name rest with ⟨block, after⟩
      rw [read] at left
      simp only [Parse.moved_mk, f.readArguments c after (Nat.le_trans left short)]
      simp only [Parse.moved, Node.moved, Node.movedAll_eq_map, List.map_append]

include c in
theorem readWord (name : Lexeme) (rest : List Lexeme) (short : rest.length ≤ n) :
    g.readWord (name.moved move) (rest.map (Lexeme.moved move)) =
      (h.readWord name rest).moved (Node.moved move) move := by
  unfold Grammar.readWord
  rw [head?_any_moved Lexeme.isFatComma_moved]
  simp only [nextIs_moved, Lexeme.text_moved, Lexeme.category_moved, f.readCall c _ rest short,
    f.readBuiltin c name rest short, f.readArguments c rest short]
  split
  · rfl
  · split
    · rfl
    · split
      · rfl
      · split
        · simp only [Parse.moved, Node.moved, Node.movedAll_eq_map]
        · rfl

include c in
theorem readPrimary (lexeme : Lexeme) (rest : List Lexeme) (short : rest.length ≤ n) :
    g.readPrimary (lexeme.moved move) (rest.map (Lexeme.moved move)) =
      (h.readPrimary lexeme rest).moved (Node.moved move) move := by
  have collected (kind : Collection) :
      readGroup (lexeme.moved move) (rest.map (Lexeme.moved move)) (fun lexemes =>
        .collection kind (g.readElements (lexeme.moved move).position lexemes)) .error =
      (readGroup lexeme rest (fun lexemes =>
        .collection kind (h.readElements lexeme.position lexemes)) .error).moved
          (Node.moved move) move := by
    refine readGroup_moved _ lexeme rest (fun lexemes within => ?_) fun _ => rfl
    rw [Lexeme.position_moved,
      f.readElements lexeme.position lexemes (Nat.lt_of_lt_of_le within short), Node.moved,
      Node.movedAll_eq_map]
  unfold Grammar.readPrimary
  simp only [Lexeme.kind_moved, Lexeme.category_moved, Lexeme.text_moved, collected,
    f.readDereference _ lexeme rest short, f.readParenthesized lexeme rest short,
    f.readDeclaration c lexeme rest short, f.readKeyword c lexeme rest short,
    f.readWord c lexeme rest short, Lexeme.unexpected_moved]
  split
  · rfl
  · rfl
  · next quoted _ =>
    rw [Parse.moved_mk, Node.moved_list, List.map_map]
    rfl
  · rfl
  · rw [Parse.moved_mk, Node.moved_ofSpelling]
  · rfl
  · split <;> rfl

/-! ## Chains -/

theorem readDirectSubscript (base : Node) (opener : Lexeme) (rest : List Lexeme)
    (short : rest.length ≤ n) :
    g.readDirectSubscript (base.moved move) (opener.moved move)
        (rest.map (Lexeme.moved move)) =
      (h.readDirectSubscript base opener rest).moved (Node.moved move) move := by
  refine readGroup_moved _ opener rest (fun lexemes within => ?_) fun _ => rfl
  rw [f.readIndex opener lexemes (Nat.lt_of_lt_of_le within short), indexed_moved]

theorem readPostfixDeref (base : Node) (lexeme : Lexeme) (sigil : Sigil) (rest : List Lexeme)
    (short : rest.length ≤ n) :
    g.readPostfixDeref (base.moved move) (lexeme.moved move) sigil
        (rest.map (Lexeme.moved move)) =
      (h.readPostfixDeref base lexeme sigil rest).moved (Node.moved move) move := by
  cases rest with
  | nil => rfl
  | cons next rest =>
    simp only [List.map_cons, Grammar.readPostfixDeref, Lexeme.isOperator_moved,
      Lexeme.category_moved]
    split
    · rfl
    · split
      · refine readGroup_moved _ next rest (fun lexemes within => ?_) fun _ => rfl
        rw [f.readIndex next lexemes (Nat.lt_trans within short), Node.moved]
      · rfl

theorem readMethod (invocant : Node) (name : Lexeme) (rest : List Lexeme)
    (short : rest.length ≤ n) :
    g.readMethod (invocant.moved move) (name.moved move) (rest.map (Lexeme.moved move)) =
      (h.readMethod invocant name rest).moved (Node.moved move) move := by
  unfold Grammar.readMethod
  rw [f.readMethodArguments rest short]
  rcases h.readMethodArguments rest with ⟨args, after⟩
  simp only [Parse.moved_mk, Node.moved, Node.movedAll_eq_map, Lexeme.text_moved]

theorem readArrow (base : Node) (arrow : Lexeme) (rest : List Lexeme)
    (short : rest.length ≤ n) :
    g.readArrow (base.moved move) (arrow.moved move) (rest.map (Lexeme.moved move)) =
      (h.readArrow base arrow rest).moved (Node.moved move) move := by
  cases rest with
  | nil => rfl
  | cons next rest =>
    have element (kind : Access) :
        readGroup (next.moved move) (rest.map (Lexeme.moved move)) (fun lexemes =>
          .access kind (base.moved move) (g.readIndex (next.moved move) lexemes)) .error =
        (readGroup next rest (fun lexemes => .access kind base (h.readIndex next lexemes))
          .error).moved (Node.moved move) move := by
      refine readGroup_moved _ next rest (fun lexemes within => ?_) fun _ => rfl
      rw [f.readIndex next lexemes (Nat.lt_trans within short), Node.moved]
    have called :
        readGroup (next.moved move) (rest.map (Lexeme.moved move)) (fun lexemes =>
          .codeCall (base.moved move) (g.readElements (next.moved move).position lexemes))
          .error =
        (readGroup next rest (fun lexemes =>
          .codeCall base (h.readElements next.position lexemes)) .error).moved
            (Node.moved move) move := by
      refine readGroup_moved _ next rest (fun lexemes within => ?_) fun _ => rfl
      rw [Lexeme.position_moved,
        f.readElements next.position lexemes (Nat.lt_trans within short), Node.moved,
        Node.movedAll_eq_map]
    have short := Nat.le_of_lt (Nat.lt_of_succ_le short)
    simp only [List.map_cons, Grammar.readArrow, Lexeme.category_moved, Lexeme.kind_moved,
      element, called, f.readPostfixDeref base next _ rest short,
      f.readMethod base next rest short]
    split <;> rfl

theorem readChain (node : Node) (rest : List Lexeme) (short : rest.length ≤ n) :
    g.readChain (node.moved move) (rest.map (Lexeme.moved move)) =
      (h.readChain node rest).moved (Node.moved move) move := by
  cases rest with
  | nil => rfl
  | cons next rest =>
    have onward (parse : Parse Node) (left : parse.2.length ≤ rest.length) :
        g.chain (parse.moved (Node.moved move) move).1 (parse.moved (Node.moved move) move).2 =
          (h.chain parse.1 parse.2).moved (Node.moved move) move :=
      f.chain parse.1 parse.2 (Nat.lt_of_le_of_lt left short)
    have subscript := onward (h.readDirectSubscript node next rest)
      (readGroup_suffix ..).length_le
    have arrow := onward (h.readArrow node next rest) (Consumes.readArrow ..).length_le
    have stepped := onward (.trailing next.text node, rest) (Nat.le_refl _)
    have short := Nat.le_of_lt (Nat.lt_of_succ_le short)
    simp only [List.map_cons, Grammar.readChain, Lexeme.category_moved, Lexeme.text_moved,
      acceptsSubscript_moved, isPlace_moved, f.readDirectSubscript node next rest short,
      f.readArrow node next rest short]
    split
    · split
      · exact subscript
      · rfl
    · split
      · exact subscript
      · rfl
    · exact arrow
    · split
      · exact stepped
      · rfl
    · rfl

/-! ## Operators -/

include c in
theorem readAtom (lexeme : Lexeme) (rest : List Lexeme) (short : rest.length ≤ n) :
    g.readAtom (lexeme.moved move) (rest.map (Lexeme.moved move)) =
      (h.readAtom lexeme rest).moved (Node.moved move) move := by
  have left := (c.readPrimary lexeme rest).length_le
  unfold Grammar.readAtom
  rw [f.readPrimary c lexeme rest short]
  rcases read : h.readPrimary lexeme rest with ⟨primary, after⟩
  rw [read] at left
  exact f.readChain primary after (Nat.le_trans left short)

theorem readLeading (op : Lexeme) (rest : List Lexeme) (short : rest.length ≤ n) :
    g.readLeading (op.moved move) (rest.map (Lexeme.moved move)) =
      (h.readLeading op rest).moved (Node.moved move) move := by
  cases rest with
  | nil => rfl
  | cons lexeme rest =>
    simp only [List.map_cons, Grammar.readLeading, Lexeme.text_moved,
      f.operand lexeme rest short, f.operation Level.power lexeme rest short]
    split <;> rfl

include c in
theorem readOperand (lexeme : Lexeme) (rest : List Lexeme) (short : rest.length ≤ n) :
    g.readOperand (lexeme.moved move) (rest.map (Lexeme.moved move)) =
      (h.readOperand lexeme rest).moved (Node.moved move) move := by
  have right := f.readRight lexeme Level.negation rest short
  have leading := f.readLeading lexeme rest short
  have atom := f.readAtom c lexeme rest short
  unfold Grammar.readOperand
  simp only [Lexeme.category_moved, Lexeme.text_moved, right, leading, atom]
  split
  · split <;> rfl
  · cases rest with
    | nil =>
      simp only [List.map_nil] at leading atom ⊢
      split
      · contradiction
      · exact leading
      · exact leading
      · exact atom
    | cons next after =>
      simp only [List.map_cons] at leading atom ⊢
      by_cases plus : lexeme.text = "+"
      · have left := (c.primary next after).length_le
        simp only [plus, Lexeme.category_moved, leading]
        split
        · rcases read : h.primary next after with ⟨hash, behind⟩
          rw [read] at left
          have further := f.chain hash behind (Nat.lt_of_le_of_lt left short)
          simp only [f.primary next after short, read, Parse.moved_mk, further]
        · rfl
      · by_cases minus : lexeme.text = "-"
        · simp only [minus, leading]
        · simp [plus, atom]
  · rfl

theorem readBranch (anchor : Position) (lexemes : List Lexeme) (short : lexemes.length < n) :
    g.readBranch (move anchor) (lexemes.map (Lexeme.moved move)) =
      (h.readBranch anchor lexemes).moved move := by
  simp only [Grammar.readBranch, List.isEmpty_map, f.whole anchor lexemes short]
  split <;> rfl

theorem readTernary (condition : Node) (question : Lexeme) (rest : List Lexeme)
    (short : rest.length < n) :
    g.readTernary (condition.moved move) (question.moved move) (rest.map (Lexeme.moved move)) =
      (h.readTernary condition question rest).moved (Node.moved move) move := by
  unfold Grammar.readTernary
  rw [cutAtColon?_moved, Lexeme.position_moved, f.readBranch question.position rest short]
  cases found : cutAtColon? 0 0 rest with
  | none => rfl
  | some cut =>
    have parts := congrArg List.length (cutAtColon?_whole found)
    rcases cut with ⟨before, colon, after⟩
    simp only [Cut.whole, List.length_append, List.length_cons] at parts
    have branch := f.readBranch question.position before (by omega)
    cases after with
    | nil => simp only [Option.map_some, Cut.moved, branch, List.map_nil, Parse.moved_mk,
        Node.moved, Node.moved_fault, Lexeme.position_moved]
    | cons lexeme after =>
      have shorter : after.length < n := by
        simp only [List.length_cons] at parts
        omega
      simp only [Option.map_some, Cut.moved, branch, List.map_cons,
        f.operation Level.ternary lexeme after shorter]
      rfl

include c in
theorem readClimb (level : Nat) (left : Node) (rest : List Lexeme) (short : rest.length ≤ n) :
    g.readClimb level (left.moved move) (rest.map (Lexeme.moved move)) =
      (h.readClimb level left rest).moved (Node.moved move) move := by
  cases rest with
  | nil => rfl
  | cons next rest =>
    rw [List.map_cons, Grammar.readClimb, Grammar.readClimb, Lexeme.category_moved,
      Lexeme.text_moved, f.readTernary left next rest short]
    split
    · split
      · rfl
      · have after := (c.readTernary left next rest).length_le
        rcases read : h.readTernary left next rest with ⟨ternary, behind⟩
        rw [read] at after
        exact f.climb level ternary behind (Nat.lt_of_le_of_lt after short)
    · split
      · rfl
      · next binding _ =>
        have after := (c.readRight next binding.rightLevel rest).length_le
        rw [f.readRight next binding.rightLevel rest (Nat.le_of_lt short)]
        rcases read : h.readRight next binding.rightLevel rest with ⟨right, behind⟩
        rw [read] at after
        have further := f.climb level (.binary next.text left right) behind
          (Nat.lt_of_le_of_lt after short)
        rw [Node.moved_binary] at further
        exact further
    · rfl

include c in
theorem readOperation (level : Nat) (lexeme : Lexeme) (rest : List Lexeme)
    (short : rest.length ≤ n) :
    g.readOperation level (lexeme.moved move) (rest.map (Lexeme.moved move)) =
      (h.readOperation level lexeme rest).moved (Node.moved move) move := by
  have left := (c.readOperand lexeme rest).length_le
  unfold Grammar.readOperation
  rw [f.readOperand c lexeme rest short]
  rcases read : h.readOperand lexeme rest with ⟨operand, after⟩
  rw [read] at left
  exact f.readClimb c level operand after (Nat.le_trans left short)

include c in
theorem readItems (rest : List Lexeme) (short : rest.length ≤ n) :
    g.readItems (rest.map (Lexeme.moved move)) =
      (h.readItems rest).moved (List.map (Node.moved move)) move := by
  rcases rest with _ | ⟨comma, _ | ⟨lexeme, after⟩⟩
  · rfl
  · simp only [List.map_cons, List.map_nil, Grammar.readItems, Lexeme.category_moved]
    split <;> rfl
  · have left := (c.operation Level.lowest lexeme after).length_le
    have shorter : after.length < n := Nat.lt_of_succ_lt short
    have skipped := f.items (lexeme :: after) short
    rw [List.map_cons] at skipped
    simp only [List.map_cons, Grammar.readItems, Lexeme.category_moved, skipped]
    split
    · split
      · rfl
      · rcases read : h.operation Level.lowest lexeme after with ⟨item, behind⟩
        rw [read] at left
        have further := f.items behind (Nat.lt_of_le_of_lt left shorter)
        simp only [f.operation Level.lowest lexeme after shorter, read, Parse.moved_mk, further]
        rfl
    · rfl

include c in
theorem readWhole (anchor : Position) (lexemes : List Lexeme) (short : lexemes.length ≤ n) :
    g.readWhole (move anchor) (lexemes.map (Lexeme.moved move)) =
      (h.readWhole anchor lexemes).moved move := by
  cases lexemes with
  | nil => rfl
  | cons lexeme rest =>
    have left := (c.readOperation Level.lowest lexeme rest).length_le
    have shorter := Nat.le_of_lt (Nat.lt_of_succ_le short)
    rw [List.map_cons, Grammar.readWhole, Grammar.readWhole,
      f.readOperation c Level.lowest lexeme rest shorter]
    rcases read : h.readOperation Level.lowest lexeme rest with ⟨first, after⟩
    rw [read] at left
    simp only [Parse.moved_mk, nextIs_moved]
    split
    · rw [f.readItems c after (Nat.le_trans left shorter)]
      rcases h.readItems after with ⟨items, behind⟩
      rw [← Node.finish_moved, Parse.moved_mk, Parse.moved_mk, Node.moved_list, List.map_cons]
    · rw [← Node.finish_moved, Parse.moved_mk]

end Follows

end Grammar

end SigilScript
