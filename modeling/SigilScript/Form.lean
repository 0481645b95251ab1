/-! # Parenthesised forms

A form is an atom or a list in parentheses. It has a text on one line, and a layout that breaks
every list too wide for its line, one item to a line. Widths count the bytes of UTF-8.
-/

namespace SigilScript

/-- An atom or a list of forms. -/
inductive Form where
  | atom (text : String)
  | list (items : List Form)
deriving Repr, Inhabited

namespace Form

/-- The list that an atom heads. -/
def headed (head : String) (items : List Form) : Form := .list (.atom head :: items)

mutual

/-- The text of a form on one line. -/
def text : Form → String
  | .atom text => text
  | .list items => "(" ++ " ".intercalate (texts items) ++ ")"

/-- The texts of several forms. -/
def texts : List Form → List String
  | [] => []
  | form :: forms => form.text :: texts forms

end

/-- The width that a line keeps to where it can. -/
def width : Nat := 72

/-- The blanks in front of an item at a level. -/
def indentation (level : Nat) : String := String.ofList (List.replicate (2 * level) ' ')

/-- Whether a form at a level has to be broken: it is too wide, and there is where to break. -/
def breaks (level : Nat) (form : Form) : Bool :=
  match form with
  | .list (_ :: _ :: _) => width < 2 * level + form.text.utf8ByteSize
  | _ => false

mutual

/-- The text of a form at a level: the head of a broken list stays on its line, and every further
item gets a line of its own, one level deeper. -/
def layout (level : Nat) : Form → String
  | .atom text => text
  | .list [] => Form.text (.list [])
  | .list (head :: items) =>
    if breaks level (.list (head :: items)) then
      "(" ++ head.layout level ++ layoutItems (level + 1) items ++ ")"
    else Form.text (.list (head :: items))

/-- The items of a broken list, each on a line of its own. -/
def layoutItems (level : Nat) : List Form → String
  | [] => ""
  | form :: forms => "\n" ++ indentation level ++ form.layout level ++ layoutItems level forms

end

end Form

end SigilScript
