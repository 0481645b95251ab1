import SigilScript.Form

/-! # The lines of a layout

A layout breaks a form into lines. Each line holds one form that is not broken at its level, behind
the parentheses of the broken lists that it is the head of and in front of those that it is the last
item of. So a line is as wide as its form and these parentheses, but whether the form is broken was
decided by its own width.
-/

namespace SigilScript

namespace Form

/-! ## Atoms -/

mutual

/-- The atoms of a form, in order. -/
def atoms : Form → List String
  | .atom text => [text]
  | .list items => atomsOf items

/-- The atoms of several forms, in order. -/
def atomsOf : List Form → List String
  | [] => []
  | form :: forms => form.atoms ++ atomsOf forms

end

mutual

/-- Whether a form has where to break wherever it holds several atoms: a list of one item holds an
atom. -/
def Breakable : Form → Prop
  | .atom _ => True
  | .list [.list _] => False
  | .list items => AllBreakable items

/-- Whether several forms have where to break. -/
def AllBreakable : List Form → Prop
  | [] => True
  | form :: forms => form.Breakable ∧ AllBreakable forms

end

/-! ## Lines -/

/-- So many equal characters. -/
def repeated (c : Char) (count : Nat) : String := String.ofList (List.replicate count c)

/-- A line of a layout: its level, the parentheses opened in front of its form by broken lists, the
form, and the parentheses closed behind it. -/
structure Line where
  level : Nat
  opened : Nat
  form : Form
  closed : Nat

/-- The text of a line. -/
def Line.text (line : Line) : String :=
  indentation line.level ++ repeated '(' line.opened ++ line.form.text ++ repeated ')' line.closed

mutual

/-- The lines of a form at a level, in front of whose first and behind whose last the lists around
it open and close so many parentheses. -/
def lines (level opened closed : Nat) : Form → List Line
  | .atom text => [⟨level, opened, .atom text, closed⟩]
  | .list [] => [⟨level, opened, .list [], closed⟩]
  | .list (head :: items) =>
    if breaks level (.list (head :: items)) then
      head.lines level (opened + 1) 0 ++ linesOfItems (level + 1) (closed + 1) items
    else [⟨level, opened, .list (head :: items), closed⟩]

/-- The lines of the items of a broken list behind its head; the list's own parenthesis and those of
the lists that it ends are closed behind the last. -/
def linesOfItems (level closed : Nat) : List Form → List Line
  | [] => []
  | form :: forms =>
    form.lines level 0 (if forms.isEmpty then closed else 0) ++ linesOfItems level closed forms

end

variable {level opened closed : Nat}

/-- A list that is broken has an item behind its head. -/
theorem items_ne_nil_of_breaks {head : Form} {items : List Form}
    (broken : breaks level (.list (head :: items)) = true) : items ≠ [] := by
  rintro rfl
  exact Bool.noConfusion broken

/-! ## What the lines hold -/

mutual

/-- The lines of a form hold its atoms, in order. -/
theorem atoms_lines (level opened closed : Nat) : ∀ form : Form,
    (form.lines level opened closed).flatMap (fun line => line.form.atoms) = form.atoms
  | .atom _ | .list [] => List.flatMap_singleton ..
  | .list (head :: items) => by
    rw [lines]
    split
    · rw [List.flatMap_append, atoms_lines _ _ _ head, atoms_linesOfItems, atoms, atomsOf]
    · exact List.flatMap_singleton ..

theorem atoms_linesOfItems (level closed : Nat) : ∀ forms : List Form,
    (linesOfItems level closed forms).flatMap (fun line => line.form.atoms) = atomsOf forms
  | [] => rfl
  | form :: forms => by
    rw [linesOfItems, List.flatMap_append, atoms_lines _ _ _ form, atoms_linesOfItems, atomsOf]

end

/-! ## What the lines make up -/

/-- The characters of a line, with the newline that ends it. -/
def Line.ended (line : Line) : List Char := line.text.toList ++ ['\n']

theorem toList_repeated (c : Char) (count : Nat) :
    (repeated c count).toList = List.replicate count c := String.toList_ofList

mutual

/-- The lines of a form make up its layout, with what stands in front of it and behind it. -/
theorem ended_lines (level opened closed : Nat) : ∀ form : Form,
    (form.lines level opened closed).flatMap Line.ended =
      (indentation level ++ repeated '(' opened ++ form.layout level ++
        repeated ')' closed).toList ++ ['\n']
  | .atom _ | .list [] => List.flatMap_singleton ..
  | .list (head :: items) => by
    rw [lines, layout]
    split
    · next broken =>
      rw [List.flatMap_append, ended_lines level (opened + 1) 0 head]
      have behind :=
        ended_linesOfItems (level + 1) (closed + 1) items (items_ne_nil_of_breaks broken)
      simp only [String.toList_append, toList_repeated, List.append_assoc, List.singleton_append,
        List.replicate_zero, List.nil_append] at behind ⊢
      rw [behind, List.replicate_succ', List.replicate_succ]
      simp only [List.append_assoc, List.cons_append]
      rfl
    · exact List.flatMap_singleton ..

theorem ended_linesOfItems (level closed : Nat) : ∀ forms : List Form, forms ≠ [] →
    '\n' :: (linesOfItems level closed forms).flatMap Line.ended =
      (layoutItems level forms ++ repeated ')' closed).toList ++ ['\n']
  | [], nonempty => absurd rfl nonempty
  | form :: forms, _ => by
    rw [linesOfItems, layoutItems, List.flatMap_append, ended_lines level 0 _ form]
    cases forms with
    | nil => simp [linesOfItems, layoutItems, toList_repeated]
    | cons next forms =>
      -- Nothing is closed behind an item that another one follows.
      have behind := ended_linesOfItems level closed (next :: forms) (List.cons_ne_nil _ _)
      simp only [String.toList_append, toList_repeated, List.append_assoc] at behind ⊢
      rw [← behind]
      simp

end

/-! ## Lines end at newlines only -/

theorem not_mem_intercalate {c : Char} {separator : String} (other : c ∉ separator.toList)
    {texts : List String} (free : ∀ text ∈ texts, c ∉ text.toList) :
    c ∉ (separator.intercalate texts).toList := by
  induction texts with
  | nil => simp
  | cons text texts ih =>
    rw [List.forall_mem_cons] at free
    cases texts with
    | nil => simpa using free.1
    | cons next texts => simpa [other, free.1] using ih free.2

mutual

/-- A text of atoms without newlines has none. -/
theorem no_newline_text : ∀ form : Form, (∀ atom ∈ form.atoms, '\n' ∉ atom.toList) →
    '\n' ∉ form.text.toList
  | .atom text, free => free text (List.mem_singleton_self text)
  | .list items, free => by
    have blank : '\n' ∉ " ".toList := by decide
    have inside := not_mem_intercalate blank (no_newline_texts items free)
    simpa [text] using inside

theorem no_newline_texts : ∀ forms : List Form, (∀ atom ∈ atomsOf forms, '\n' ∉ atom.toList) →
    ∀ text ∈ texts forms, '\n' ∉ text.toList
  | [], _ => List.forall_mem_nil _
  | form :: forms, free => by
    rw [atomsOf, List.forall_mem_append] at free
    rw [texts, List.forall_mem_cons]
    exact ⟨no_newline_text form free.1, no_newline_texts forms free.2⟩

end

theorem Line.no_newline {line : Line} (free : ∀ atom ∈ line.form.atoms, '\n' ∉ atom.toList) :
    '\n' ∉ line.text.toList := by
  have inside := no_newline_text line.form free
  simp [Line.text, indentation, repeated, inside]

/-! ## What a line holds -/

/-- A line's form is not broken, and has where to break unless it holds one atom. -/
structure Line.Whole (line : Line) : Prop where
  unbroken : breaks line.level line.form = false
  breakable : line.form.Breakable

/-- The items of a list have where to break, and so has its head where there are any. -/
theorem Breakable.items {head : Form} {items : List Form}
    (breakable : Breakable (.list (head :: items))) (several : items ≠ []) : head.Breakable ∧ AllBreakable items := by
  obtain ⟨next, items, rfl⟩ := List.exists_cons_of_ne_nil several
  cases head <;> exact breakable

mutual

theorem whole_lines (level opened closed : Nat) : ∀ form : Form, form.Breakable →
    ∀ line ∈ form.lines level opened closed, line.Whole
  | .atom _, breakable | .list [], breakable => by
    rw [lines, List.forall_mem_singleton]
    exact ⟨rfl, breakable⟩
  | .list (head :: items), breakable => by
    rw [lines]
    split
    · next broken =>
      obtain ⟨first, others⟩ := breakable.items (items_ne_nil_of_breaks broken)
      rw [List.forall_mem_append]
      exact ⟨whole_lines level _ 0 head first, whole_linesOfItems _ _ items others⟩
    · next unbroken =>
      rw [List.forall_mem_singleton]
      exact ⟨Bool.eq_false_iff.mpr unbroken, breakable⟩

theorem whole_linesOfItems (level closed : Nat) : ∀ forms : List Form, AllBreakable forms →
    ∀ line ∈ linesOfItems level closed forms, line.Whole
  | [], _ => List.forall_mem_nil _
  | form :: forms, breakable => by
    rw [linesOfItems, List.forall_mem_append]
    exact ⟨whole_lines level 0 _ form breakable.1, whole_linesOfItems _ _ forms breakable.2⟩

end

/-! ## Widths -/

theorem utf8ByteSize_repeated {c : Char} (single : c.utf8Size = 1) (count : Nat) :
    (repeated c count).utf8ByteSize = count := by
  induction count with
  | zero => rfl
  | succ count ih =>
    rw [repeated, List.replicate_succ, String.ofList_cons, String.utf8ByteSize_append,
      String.utf8ByteSize_singleton, single, ← repeated, ih, Nat.add_comm]

/-- The width of a line without the parentheses of the lists around its form. -/
def Line.core (line : Line) : Nat := 2 * line.level + line.form.text.utf8ByteSize

theorem Line.utf8ByteSize_text (line : Line) :
    line.text.utf8ByteSize = line.core + (line.opened + line.closed) := by
  have blanks : (indentation line.level).utf8ByteSize = 2 * line.level :=
    utf8ByteSize_repeated rfl _
  have openers := utf8ByteSize_repeated (show '('.utf8Size = 1 from rfl) line.opened
  have closers := utf8ByteSize_repeated (show ')'.utf8Size = 1 from rfl) line.closed
  simp only [Line.text, Line.core, String.utf8ByteSize_append, blanks, openers, closers]
  omega

/-- A form that is not broken keeps to the width or holds one atom at most. -/
theorem Line.Whole.fits {line : Line} (whole : line.Whole) (several : 1 < line.form.atoms.length) :
    line.core ≤ width := by
  rcases line with ⟨level, opened, form, closed⟩
  obtain ⟨unbroken, breakable⟩ := whole
  match form with
  | .atom _ => exact absurd several (Nat.lt_irrefl 1)
  | .list [] => exact absurd several (Nat.not_lt_zero 1)
  | .list [.atom _] => exact absurd several (Nat.lt_irrefl 1)
  | .list [.list _] => exact absurd breakable id
  | .list (_ :: _ :: _) => exact Nat.not_lt.mp (of_decide_eq_false unbroken)

end Form

end SigilScript
