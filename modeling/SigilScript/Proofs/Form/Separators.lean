import SigilScript.Node.Form

/-! # The separators of a layout

The text of a form is made of pieces: what stands in it verbatim, and the separators between the
items of its lists. On one line every separator is a blank. A layout keeps all the pieces and puts
newlines with indentation for the blanks of the lists that it breaks: for all of a list or for none,
and as deep as the items of that list stand.
-/

namespace SigilScript

namespace Form

variable {level index : Nat}

/-! ## Pieces -/

/-- A piece of the text of a form: what stands in it verbatim, or the separator in front of the
item at an index of a list, where `path` leads from the whole form to the list by the indices of
items. -/
inductive Piece where
  | verbatim (text : String)
  | between (path : List Nat) (index : Nat)

namespace Piece

/-- The same piece, seen from a list that holds the form at an index. -/
def within (index : Nat) : Piece → Piece
  | .verbatim text => .verbatim text
  | .between path other => .between (index :: path) other

/-- The text of a piece: a separator is a newline and an indentation where a level is chosen for it,
and a blank elsewhere. -/
def text (chosen : List Nat → Nat → Option Nat) : Piece → String
  | .verbatim text => text
  | .between path index =>
    match chosen path index with
    | none => " "
    | some level => "\n" ++ indentation level

end Piece

mutual

/-- The pieces of a form. -/
def pieces : Form → List Piece
  | .atom text => [.verbatim text]
  | .list items => .verbatim "(" :: piecesFrom 0 items ++ [.verbatim ")"]

/-- The pieces of the items of a list from an index on: nothing separates the head. -/
def piecesFrom (index : Nat) : List Form → List Piece
  | [] => []
  | form :: forms =>
    (if index = 0 then [] else [.between [] index]) ++ form.pieces.map (Piece.within index) ++
      piecesFrom (index + 1) forms

end

/-- Pieces put together. -/
def joined (chosen : List Nat → Nat → Option Nat) (pieces : List Piece) : String :=
  String.join (pieces.map (Piece.text chosen))

/-! ## Choices -/

/-- How far the form that a path leads to is indented: a step for every list around it, but for
those in whose heads it stands. -/
def indentationLevel (path : List Nat) : Nat := path.countP (· ≠ 0)

/-- Whether a layout at a level breaks the list that a path leads to: it breaks every list on the
way and finds that one too wide as well. -/
def breaksAt (level : Nat) : List Nat → Form → Bool
  | [], form => breaks level form
  | index :: path, .list items =>
    breaks level (.list items) &&
      (items[index]?).any (breaksAt (if index = 0 then level else level + 1) path)
  | _ :: _, .atom _ => false

/-- The level at which a layout puts the item at an index of a list on a line of its own, if it
breaks that list. -/
def lineLevel? (level : Nat) (form : Form) (path : List Nat) (index : Nat) : Option Nat :=
  if form.breaksAt level path then some (level + indentationLevel (path ++ [index])) else none

theorem indentationLevel_cons (index : Nat) (path : List Nat) :
    indentationLevel (index :: path) = (if index = 0 then 0 else 1) + indentationLevel path := by
  by_cases head : index = 0
  · simp [indentationLevel, head]
  · simp [indentationLevel, head, Nat.add_comm]

/-- The items of a list stand one level deeper than the list itself, but for its head. -/
theorem indentationLevel_item (path : List Nat) (behind : index ≠ 0) :
    indentationLevel (path ++ [index]) = indentationLevel path + 1 := by
  simp [indentationLevel, behind]

/-- A form that fits behind its indentation is not broken. -/
theorem breaks_of_fits {form : Form} (fits : 2 * level + form.text.utf8ByteSize ≤ width) :
    breaks level form = false := by
  unfold breaks
  split
  · exact decide_eq_false (Nat.not_lt.mpr fits)
  · rfl

/-- A form that is not broken has nothing in it broken. -/
theorem lineLevel?_whole {form : Form} (whole : breaks level form = false) :
    lineLevel? level form = fun _ _ => none := by
  funext path index
  rw [lineLevel?, if_neg]
  cases path with
  | nil => simp [breaksAt, whole]
  | cons step path =>
    cases form with
    | atom text => simp [breaksAt]
    | list items => simp [breaksAt, whole]

/-- Inside a broken list a layout goes on in each item, on the same level in the head and one deeper
in the others. -/
theorem lineLevel?_item {items : List Form} {item : Form}
    (broken : breaks level (.list items) = true) (found : items[index]? = some item) :
    (fun path => lineLevel? level (.list items) (index :: path)) =
      lineLevel? (if index = 0 then level else level + 1) item := by
  funext path other
  simp only [lineLevel?, breaksAt, broken, found, Option.any_some, Bool.true_and, List.cons_append,
    indentationLevel_cons]
  by_cases head : index = 0
  · simp only [if_pos head, Nat.zero_add]
  · simp only [if_neg head, Nat.add_assoc]

/-! ## What the pieces make up -/

section

variable {chosen : List Nat → Nat → Option Nat}

theorem joined_append (first second : List Piece) :
    joined chosen (first ++ second) = joined chosen first ++ joined chosen second := by
  rw [joined, List.map_append, String.join_append]
  rfl

theorem joined_cons (piece : Piece) (pieces : List Piece) :
    joined chosen (piece :: pieces) = piece.text chosen ++ joined chosen pieces := by
  rw [joined, List.map_cons, String.join_cons, joined]

theorem joined_within (index : Nat) (pieces : List Piece) :
    joined chosen (pieces.map (Piece.within index)) =
      joined (fun path => chosen (index :: path)) pieces := by
  rw [joined, List.map_map, joined]
  congr 2
  funext piece
  cases piece <;> rfl

theorem joined_list (items : List Form) :
    joined chosen (pieces (.list items)) = "(" ++ joined chosen (piecesFrom 0 items) ++ ")" := by
  rw [pieces, List.cons_append, joined_cons, joined_append, ← String.append_assoc]
  simp [joined, Piece.text]

/-- The head of a list stands right behind its parenthesis. -/
theorem joined_head (head : Form) (items : List Form) :
    joined chosen (piecesFrom 0 (head :: items)) =
      joined (fun path => chosen (0 :: path)) head.pieces ++
        joined chosen (piecesFrom 1 items) := by
  rw [piecesFrom, if_pos rfl, List.nil_append, joined_append, joined_within]

/-- Every further item stands behind its separator. -/
theorem joined_item (index : Nat) (form : Form) (forms : List Form) :
    joined chosen (piecesFrom (index + 1) (form :: forms)) =
      (Piece.between [] (index + 1)).text chosen ++
        joined (fun path => chosen ((index + 1) :: path)) form.pieces ++
          joined chosen (piecesFrom (index + 2) forms) := by
  rw [piecesFrom, if_neg (Nat.succ_ne_zero index), joined_append, joined_append, joined_within]
  simp [joined]

end

mutual

/-- On one line every separator is a blank. -/
theorem text_eq_joined : ∀ form : Form, form.text = joined (fun _ _ => none) form.pieces
  | .atom text => by simp [Form.text, pieces, joined, Piece.text]
  | .list [] => rfl
  | .list (head :: items) => by
    rw [joined_list, joined_head, ← text_eq_joined head, ← intercalate_eq_joined head.text 0 items]
    rfl

theorem intercalate_eq_joined (first : String) (index : Nat) : ∀ forms : List Form,
    " ".intercalate (first :: texts forms) =
      first ++ joined (fun _ _ => none) (piecesFrom (index + 1) forms)
  | [] => by simp [texts, piecesFrom, joined]
  | form :: forms => by
    rw [texts, String.intercalate_cons_cons, intercalate_eq_joined form.text (index + 1) forms,
      text_eq_joined form, joined_item, ← String.append_assoc, ← String.append_assoc,
      ← String.append_assoc]
    rfl

end

mutual

/-- A layout puts its newlines where it breaks a list, and a blank for every other separator. -/
theorem layout_eq_joined (level : Nat) : ∀ form : Form,
    form.layout level = joined (lineLevel? level form) form.pieces
  | .atom text => by simp [layout, pieces, joined, Piece.text]
  | .list [] => by
    rw [layout, text_eq_joined, lineLevel?_whole rfl]
  | .list (head :: items) => by
    rw [layout]
    split
    · next broken =>
      have opening : (fun path => lineLevel? level (.list (head :: items)) (0 :: path)) =
          lineLevel? level head := lineLevel?_item broken rfl
      have separate (other : Nat) :
          lineLevel? level (.list (head :: items)) [] (other + 1) = some (level + 1) := by
        rw [lineLevel?, breaksAt, if_pos broken, List.nil_append, ← List.nil_append [other + 1],
          indentationLevel_item [] (Nat.succ_ne_zero other)]
        rfl
      have inside (other : Nat) (item : Form) (found : items[other]? = some item) :
          (fun path => lineLevel? level (.list (head :: items)) ((0 + other + 1) :: path)) =
            lineLevel? (level + 1) item := by
        rw [Nat.zero_add]
        exact @lineLevel?_item level (other + 1) _ _ broken found
      have behind := layoutItems_eq_joined (level + 1) 0 items separate inside
      rw [joined_list, joined_head, opening, ← layout_eq_joined level head, behind]
      simp only [String.append_assoc]
    · next whole => rw [text_eq_joined, lineLevel?_whole (Bool.eq_false_iff.mpr whole)]

theorem layoutItems_eq_joined {chosen : List Nat → Nat → Option Nat} (level index : Nat) :
    ∀ forms : List Form, (∀ other, chosen [] (other + 1) = some level) →
    (∀ other form, forms[other]? = some form →
      (fun path => chosen ((index + other + 1) :: path)) = lineLevel? level form) →
    layoutItems level forms = joined chosen (piecesFrom (index + 1) forms)
  | [], _, _ => rfl
  | form :: forms, separate, inside => by
    have first : (fun path => chosen ((index + 1) :: path)) = lineLevel? level form :=
      inside 0 form rfl
    have later (other : Nat) (item : Form) (found : forms[other]? = some item) :
        (fun path => chosen ((index + 1 + other + 1) :: path)) = lineLevel? level item := by
      rw [Nat.add_right_comm index 1 other]
      exact inside (other + 1) item found
    have behind := layoutItems_eq_joined level (index + 1) forms separate later
    rw [layoutItems, joined_item, first, ← layout_eq_joined level form, ← behind]
    simp only [Piece.text, separate, String.append_assoc]

end

/-! ## Separators -/

mutual

/-- No separator stands in front of the head of a list. -/
theorem index_ne_zero_of_mem : ∀ (form : Form) {path : List Nat} {index : Nat},
    Piece.between path index ∈ form.pieces → index ≠ 0
  | .atom text, _, _, member => by simp [pieces] at member
  | .list items, _, _, member => by
    simp only [pieces, List.cons_append, List.mem_cons, List.mem_append, List.not_mem_nil,
      reduceCtorEq, or_false, false_or] at member
    exact index_ne_zero_of_mem_piecesFrom 0 items member

theorem index_ne_zero_of_mem_piecesFrom (start : Nat) : ∀ (forms : List Form) {path : List Nat}
    {index : Nat}, Piece.between path index ∈ piecesFrom start forms → index ≠ 0
  | [], _, _, member => by simp [piecesFrom] at member
  | form :: forms, _, _, member => by
    rw [piecesFrom, List.mem_append, List.mem_append] at member
    obtain (separator | inside) | later := member
    · split at separator
      · simp at separator
      · next behind =>
        obtain ⟨-, rfl⟩ := Piece.between.inj (List.mem_singleton.mp separator)
        exact behind
    · obtain ⟨piece, held, same⟩ := List.mem_map.mp inside
      cases piece with
      | verbatim text => simp [Piece.within] at same
      | between path other =>
        obtain ⟨-, rfl⟩ := Piece.between.inj same
        exact index_ne_zero_of_mem form held
    · exact index_ne_zero_of_mem_piecesFrom (start + 1) forms later

end

end Form

open Form

end SigilScript
