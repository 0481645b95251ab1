import SigilScript.Lexeme

/-! # Nesting of brackets

Every search for a partner or for a boundary on the same level goes through this module. A search
cuts a list of lexemes into what stands before the place, the lexeme found, and what stands after
it; the searches by index count what stands before.

Two measures of depth are used on purpose. A partner is sought among brackets of its own kind
only; a boundary is sought at depth zero of all three kinds together, and that search ends where
it would leave the enclosing group.
-/

namespace SigilScript

/-- What a lexeme of this role adds to the depth. -/
def Category.delta (category : Category) : Int :=
  if category.isOpener then 1 else if category.isCloser then -1 else 0

/-- The depth after a lexeme of this role; nothing when it leaves the enclosing group. -/
def Category.depthAfter? (category : Category) (depth : Nat) : Option Nat :=
  if category.isOpener then some (depth + 1)
  else if category.isCloser then (if depth = 0 then none else some (depth - 1))
  else some depth

/-- A list cut at one lexeme: what stands before it, itself, and what stands after it. -/
structure Cut where
  before : List Lexeme
  found : Lexeme
  after : List Lexeme
deriving DecidableEq, Repr, Inhabited

namespace Cut

/-- The same cut with one more lexeme in front. -/
def push (lexeme : Lexeme) (cut : Cut) : Cut := { cut with before := lexeme :: cut.before }

/-- The list that was cut. -/
def whole (cut : Cut) : List Lexeme := cut.before ++ cut.found :: cut.after

@[simp] theorem whole_push (lexeme : Lexeme) (cut : Cut) :
    (cut.push lexeme).whole = lexeme :: cut.whole := rfl

end Cut

/-- Cut at the closer that brings a depth counted in one kind of bracket down to zero. -/
def cutAtPartner? (opener closer : Category) : Nat → List Lexeme → Option Cut
  | _, [] => none
  | depth, lexeme :: rest =>
    if lexeme.category = opener then
      (cutAtPartner? opener closer (depth + 1) rest).map (Cut.push lexeme)
    else if lexeme.category = closer then
      if depth ≤ 1 then some ⟨[], lexeme, rest⟩
      else (cutAtPartner? opener closer (depth - 1) rest).map (Cut.push lexeme)
    else (cutAtPartner? opener closer depth rest).map (Cut.push lexeme)

/-- The index of the closer that matches the opener at `start`. A missing partner is a fault at
the opener; a start outside the list is a fault at its last lexeme. -/
def matchingClose (lexemes : List Lexeme) (opener closer : Category) (start : Nat) :
    Except SyntaxFault Nat :=
  match cutAtPartner? opener closer 0 (lexemes.drop start) with
  | some cut => .ok (start + cut.before.length)
  | none =>
    match lexemes[start]? with
    | some lexeme => .error ⟨.unclosed lexeme.text, lexeme.position⟩
    | none => .error ⟨.unclosed "", (lexemes.getLast?.map Lexeme.position).getD ⟨0, 0⟩⟩

/-- The inside of the group that `opener` opens, and what follows the group. A group without its
end is a fault at the opener and takes everything. -/
def takeGroup (opener : Lexeme) (rest : List Lexeme) :
    Except SyntaxFault (List Lexeme) × List Lexeme :=
  match opener.category.closer? with
  | none => (.error ⟨.unexpected opener.text, opener.position⟩, rest)
  | some closer =>
    match cutAtPartner? opener.category closer 1 rest with
    | some cut => (.ok cut.before, cut.after)
    | none => (.error ⟨.unclosed opener.text, opener.position⟩, [])

/-- Cut at the first lexeme at depth zero that `wanted` holds of. -/
def cutAtTopLevel? (wanted : Lexeme → Bool) : Nat → List Lexeme → Option Cut
  | _, [] => none
  | depth, lexeme :: rest =>
    if depth = 0 ∧ wanted lexeme then some ⟨[], lexeme, rest⟩
    else
      match lexeme.category.depthAfter? depth with
      | none => none
      | some inner => (cutAtTopLevel? wanted inner rest).map (Cut.push lexeme)

/-- The first index from `start` on at depth zero where `wanted` holds. -/
def findTopLevel? (lexemes : List Lexeme) (start : Nat) (wanted : Lexeme → Bool) : Option Nat :=
  (cutAtTopLevel? wanted 0 (lexemes.drop start)).map fun cut => start + cut.before.length

/-- The indices at depth zero where `wanted` holds, counted from `index`. -/
def topLevelIndices (wanted : Lexeme → Bool) (index : Nat) : Nat → List Lexeme → List Nat
  | _, [] => []
  | depth, lexeme :: rest =>
    let further := match lexeme.category.depthAfter? depth with
      | none => []
      | some inner => topLevelIndices wanted (index + 1) inner rest
    if depth = 0 ∧ wanted lexeme then index :: further else further

/-- The indices from `start` on at depth zero where `wanted` holds. -/
def topLevelPositions (lexemes : List Lexeme) (start : Nat) (wanted : Lexeme → Bool) : List Nat :=
  topLevelIndices wanted start 0 (lexemes.drop start)

/-- Whether a lexeme of this role stands at depth zero. -/
def hasTopLevel (lexemes : List Lexeme) (category : Category) : Bool :=
  (cutAtTopLevel? (fun lexeme => lexeme.category = category) 0 lexemes).isSome

/-- A stretch between separators, with the separator that ends it. -/
structure Segment where
  lexemes : List Lexeme
  separator : Option Lexeme
deriving DecidableEq, Repr, Inhabited

/-- Put a lexeme in front of the first of several segments. -/
def pushSegment (lexeme : Lexeme) : List Segment → List Segment
  | [] => [⟨[lexeme], none⟩]
  | segment :: segments => { segment with lexemes := lexeme :: segment.lexemes } :: segments

/-- The segments between separators at depth zero; an empty list is one empty segment. -/
def segmentsFrom (separator : Category) : Nat → List Lexeme → List Segment
  | _, [] => [⟨[], none⟩]
  | depth, lexeme :: rest =>
    let further := match lexeme.category.depthAfter? depth with
      | none => [⟨rest, none⟩]
      | some inner => segmentsFrom separator inner rest
    if depth = 0 ∧ lexeme.category = separator then ⟨[], some lexeme⟩ :: further
    else pushSegment lexeme further

/-- Split at separators of depth zero. An empty list has no segments, and a separator at the end
leaves an empty one after it. -/
def segmentsAt (separator : Category) : List Lexeme → List Segment
  | [] => []
  | lexeme :: rest => segmentsFrom separator 0 (lexeme :: rest)

/-- The segments of a split without their separators. -/
def splitTopLevel (lexemes : List Lexeme) (separator : Category) : List (List Lexeme) :=
  (segmentsAt separator lexemes).map Segment.lexemes

/-- Cut at the colon that belongs to a question mark just read: groups are skipped, and every
further question mark takes a colon of its own first. -/
def cutAtColon? : Nat → Nat → List Lexeme → Option Cut
  | _, _, [] => none
  | pending, depth, lexeme :: rest =>
    let onward (pending : Nat) : Option Cut :=
      match lexeme.category.depthAfter? depth with
      | none => none
      | some inner => (cutAtColon? pending inner rest).map (Cut.push lexeme)
    if depth = 0 ∧ lexeme.category = .question then onward (pending + 1)
    else if depth = 0 ∧ lexeme.category = .colon then
      if pending = 0 then some ⟨[], lexeme, rest⟩ else onward (pending - 1)
    else onward pending

/-- The index of the colon that belongs to the question mark at `start`. -/
def ternaryColon? (lexemes : List Lexeme) (start : Nat) : Option Nat :=
  (cutAtColon? 0 0 (lexemes.drop (start + 1))).map fun cut => start + 1 + cut.before.length

end SigilScript
