import SigilScript.Proofs.Causality
import SigilScript.Proofs.Extent
import SigilScript.Proofs.Interruption

/-! # How far ahead is read

No item has pulled more than three characters beyond its own end, as long as no literal without its
end was given up. A statement that its last lexeme completes is told by a closer or a terminator,
which is one character of the three that were looked at, so two at most are left.
-/

namespace SigilScript

/-! ## Items -/

/-- Whether a token may complete a statement that it is part of: it closes a group, or it is a
semicolon. -/
def TokenKind.mayEnd : TokenKind → Bool
  | .closeParen | .closeBracket | .closeBrace | .semicolon => true
  | _ => false

namespace Reader

variable {reader : Reader}

theorem near_start (text : List Char) : (start text).Near := by
  rcases text with _ | ⟨c, rest⟩
  · exact Nat.zero_le _
  · simp only [start, Near]
    split
    · exact Nat.zero_le 3
    · exact Nat.le_of_ble_eq_true rfl

/-- Behind a token that may complete a statement two characters at most are pulled. -/
def NearEnd (reading : Reading) : Prop :=
  ∀ token, reading.1 = .ok token → token.kind.mayEnd = true → reading.2.ahead ≤ 2

theorem nearEnd_error {fault : ScanFault} {after : Reader} : NearEnd (.error fault, after) := nofun

theorem nearEnd_token {kind : TokenKind} {text : List Char} {after : Reader}
    (goesOn : kind.mayEnd = false) : NearEnd (reader.token kind text, after) := by
  intro token same ends
  obtain rfl := Except.ok.inj same
  rw [goesOn] at ends
  contradiction

theorem nearEnd_literal {opened : Reader} {cause : ScanCause} {body : Option Body}
    {scanned : List Char → Reader → Reading} (near : ∀ text after, NearEnd (scanned text after)) :
    NearEnd (reader.literal opened cause body scanned) := by
  cases body with
  | none => exact nearEnd_error
  | some body => exact near _ _

/-- An operator is one at least of three characters that were looked at. -/
theorem nearEnd_operator (near : reader.Near) (nonempty : reader.unread ≠ []) :
    NearEnd reader.operator := by
  have some := List.length_pos_iff.mpr nonempty
  intro token same _
  have positive : ∀ spelling ∈ operatorSpellings, 0 < spelling.length := by decide
  simp only [Near] at near
  simp only [operator] at same ⊢
  split at same
  · next spelling found =>
    have long := positive spelling (List.mem_of_find?_eq_some found)
    simp only [look, skip, List.length_take]
    omega
  · contradiction

theorem nearEnd_scan {context : Context} {c : Char} {rest : List Char} {reading : Reading}
    (near : reader.Near) (unread : reader.unread = c :: rest)
    (read : reader.scan context c = some reading) : NearEnd reading := by
  have nonempty : reader.unread ≠ [] := by
    rw [unread]
    exact List.cons_ne_nil _ _
  have looked (count : Nat) (few : count ≤ 3) : NearEnd (reader.look count).operator :=
    nearEnd_operator (Steps.near (.look .refl few) near) nonempty
  cases scan_cases read with
  | number | fraction => exact nearEnd_token rfl
  | quoted => exact nearEnd_literal fun _ _ => nearEnd_token rfl
  | word _ read =>
    cases word_cases read with
    | string | words => exact nearEnd_literal fun _ _ => nearEnd_token rfl
    | pattern => exact nearEnd_literal fun _ _ => nearEnd_token rfl
    | plain =>
      simp only [word.plainWord]
      split <;> exact nearEnd_token rfl
  | sigil sigil spelled =>
    rw [spelled] at unread
    have found := sigil_cases unread
    generalize reader.sigil sigil = reading at found
    cases found with
    | named | digits => exact nearEnd_token rfl
    | spelled _ isSigil => obtain rfl | rfl := isSigil <;> exact nearEnd_token rfl
    | operator => exact looked 3 (Nat.le_refl 3)
    | fault => exact nearEnd_error
  | pattern => exact nearEnd_literal fun _ _ => nearEnd_token rfl
  | operator => exact nearEnd_operator near nonempty
  | dot => exact looked 2 (by decide)

end Reader

namespace Scanner

variable {scanner : Scanner} {text : List Char} {calls : Nat} {item : Scanned}

/-- A call that gives up no literal leaves no more than three characters pulled, and two behind a
token that may complete a statement. -/
theorem near_next (near : scanner.reader.Near)
    (ends : ∀ item, scanner.next.1 = some item → missesEnd item = false) :
    scanner.next.2.reader.Near ∧ ∀ token, scanner.next.1 = some (.ok token) →
      token.kind.mayEnd = true → scanner.next.2.reader.ahead ≤ 2 := by
  cases finished : scanner.finished with
  | true =>
    rw [next_of_finished finished]
    exact ⟨near, nofun⟩
  | false =>
    have found := next_cases finished
    generalize scanner.next = answer at found ends
    have gap := scanner.reader.steps_skipGap.near near
    cases found with
    | ended => exact ⟨gap, nofun⟩
    | endWord => exact ⟨Reader.Steps.refl.name.near gap, nofun⟩
    | item unread scanned =>
      refine ⟨(Reader.spends_scan unread scanned).near gap (ends _ rfl), fun token same => ?_⟩
      exact Reader.nearEnd_scan gap unread scanned token (Option.some.inj same)

theorem near_called (ends : ∀ item ∈ answered text calls, missesEnd item = false) :
    (called text calls).reader.Near := by
  induction calls with
  | zero => exact Reader.near_start text
  | succ calls ih =>
    have within (item) (member : item ∈ answered text calls) :
        item ∈ answered text (calls + 1) := by
      obtain ⟨call, before, found⟩ := List.mem_filterMap.mp member
      exact List.mem_filterMap.mpr ⟨call, List.mem_range.mpr
        (Nat.lt_succ_of_lt (List.mem_range.mp before)), found⟩
    refine (near_next (ih fun item member => ends item (within item member)) ?_).1
    exact fun item found => ends item
      (List.mem_filterMap.mpr ⟨calls, List.mem_range.mpr (Nat.lt_succ_self calls), found⟩)

end Scanner

/-- Whether an item ends behind so many characters of a text: the last of these are the slice that
it is read from. -/
def EndsBehind (text : List Char) (item : Scanned) (count : Nat) : Prop :=
  ∃ before slice, text.take count = before ++ slice ∧ (before ++ slice).length = count ∧
    ReadFrom item slice ∧ placeOf item = placeBehind (withoutMark before)

open Scanner

variable {text : List Char} {calls : Nat} {item : Scanned}

/-- A call that answers an item has read just as far as the item ends. -/
theorem endsBehind_called (found : answer text calls = some item) :
    EndsBehind text item (called text (calls + 1)).reader.consumed := by
  have read := next_called text calls
  rw [found] at read
  obtain ⟨-, c, rest, reader, unread, scanned, same⟩ := scan_of_next read
  obtain ⟨front, reached⟩ := crosses_called text calls
  obtain ⟨gap, skipped, -⟩ := (called text calls).reader.crosses_skipGap
  obtain ⟨slice, crosses, isRead⟩ := Reader.slices_scan unread scanned
  have begins := Reader.StandsIn.of_crosses (reached.trans skipped)
  have inside := (Nat.le_add_right _ _).trans begins.pulled
  refine ⟨text.take (called text calls).reader.skipGap.consumed, slice, ?_, ?_, isRead, ?_⟩
  · rw [same, crosses.consumed, List.take_add, ← begins.unread, crosses.unread, List.take_left]
  · rw [same, crosses.consumed, List.length_append, List.length_take, min_eq_left inside]
  · rw [Reader.place_scan unread scanned, begins.position]

/-! ## Statements -/

namespace Boundary

variable {boundary further other final : Boundary} {lexeme last : Lexeme} {front : List Lexeme}

/-- A lexeme that completes a statement closes a group or is a terminator. -/
theorem role_of_last (inside : 0 ≤ boundary.depth)
    (ended : boundary.offer lexeme = (.takeAndEnd, final)) :
    lexeme.category.isCloser = true ∨ lexeme.category = .terminator := by
  rcases (boundary.offer_counts lexeme).ended (by rw [ended]) with left | ⟨-, role⟩
  · refine .inl ?_
    have falls : lexeme.category.delta < 0 := by omega
    by_contra other
    simp only [Category.delta, other] at falls
    split at falls
    · contradiction
    · contradiction
  · simp only [List.mem_cons, List.not_mem_nil, or_false] at role
    rcases role with role | role
    · exact .inr role
    · rw [role]
      exact .inl rfl

/-- A lexeme that completes a statement does not let it go on. -/
theorem Takes.not_last (takes : boundary.Takes front further)
    (ended : further.offer last = (.takeAndEnd, final)) :
    ¬ boundary.Takes (front ++ [last]) other := by
  intro goesOn
  induction takes with
  | nil =>
    cases goesOn with
    | cons offered _ =>
      rw [offered] at ended
      exact absurd (congrArg Prod.fst ended) nofun
  | cons offered _ ih =>
    cases goesOn with
    | cons offered' further =>
      rw [offered] at offered'
      obtain rfl := (Prod.mk.inj offered').2
      exact ih ended further

end Boundary

/-- A token that plays the role of a closer or of a terminator may complete a statement. -/
theorem Token.mayEnd_of_role {token : Token} {previous : Option Category}
    (role : (token.categoryAfter previous).isCloser = true ∨
      token.categoryAfter previous = .terminator) : token.kind.mayEnd = true := by
  rcases token with ⟨kind, text, position⟩
  by_cases spelled : kind = .identifier ∨ kind = .operator
  · have noCloser := (@categoryAfter_plain ⟨kind, text, position⟩ spelled previous).2
    rw [noCloser] at role
    have ends := role.resolve_left nofun
    rcases spelled with rfl | rfl
    · simp only [categoryAfter, category, Category.ofWord] at ends
      repeat' split at ends
      all_goals contradiction
    · simp only [categoryAfter, category, Category.ofOperator] at ends
      split at ends <;> contradiction
  · cases kind <;> simp_all [categoryAfter, category, Category.isCloser, TokenKind.mayEnd]

namespace Collector

variable {collector : Collector} {piece : Piece} {front : List Lexeme} {last : Lexeme}
  {further final : Boundary}

/-- Whether a collector holds what its boundary has taken of a statement. -/
def Holds (collector : Collector) : Prop :=
  Boundary.start.Takes collector.taken.reverse collector.boundary

theorem holds_start (asked : Nat) : (start asked).Holds := .nil _

theorem holds_take (held : collector.Holds) (lexeme : Lexeme) :
    (collector.take lexeme).2.Holds := by
  rcases offered : collector.boundary.offer lexeme with ⟨_ | _ | _, further⟩
  · simp only [take, offered, Holds, List.reverse_cons]
    exact held.append (.cons offered (.nil _))
  · simp only [take, offered]
    exact holds_start _
  · simp only [take, offered]
    rcases began : Boundary.start.offer lexeme with ⟨_ | _ | _, further⟩
    · exact .cons began (.nil _)
    · exact holds_start _
    · exact holds_start _

/-- What a collector holds no lexeme has completed. -/
theorem Holds.not_piece (held : collector.Holds)
    (lexemes : collector.taken.reverse = front ++ [last])
    (takes : Boundary.start.Takes front further)
    (ended : further.offer last = (.takeAndEnd, final)) : False := by
  rw [Holds, lexemes] at held
  exact takes.not_last ended held

/-- Of the pieces that a lexeme completes the lexeme completes the one that it belongs to. -/
theorem last_of_take {lexeme : Lexeme} (held : collector.Holds)
    (member : piece ∈ (collector.take lexeme).1) (lexemes : piece.lexemes = front ++ [last])
    (takes : Boundary.start.Takes front further)
    (ended : further.offer last = (.takeAndEnd, final)) : lexeme = last := by
  rcases offered : collector.boundary.offer lexeme with ⟨_ | _ | _, after⟩
  · simp [take, offered] at member
  · simp only [take, offered, List.mem_singleton] at member
    rw [member, Collector.piece, List.reverse_cons] at lexemes
    exact List.singleton_inj.mp (List.append_inj' lexemes rfl).2
  · have alone (single : piece = ⟨[lexeme], none, collector.asked⟩) : lexeme = last := by
      rw [single, ← List.nil_append [lexeme]] at lexemes
      exact List.singleton_inj.mp (List.append_inj' lexemes rfl).2
    have before : piece ≠ collector.piece := by
      rintro rfl
      exact held.not_piece lexemes takes ended
    simp only [take, offered] at member
    split at member
    · exact absurd (List.mem_singleton.mp member) before
    · exact alone (List.mem_singleton.mp ((List.mem_cons.mp member).resolve_left before))

/-- A piece that its last lexeme completes has asked for that lexeme last. -/
theorem getElem?_last {items : List Classified} (held : collector.Holds)
    (member : piece ∈ collector.pieces items) (lexemes : piece.lexemes = front ++ [last])
    (takes : Boundary.start.Takes front further)
    (ended : further.offer last = (.takeAndEnd, final)) :
    ∃ before, piece.asked = collector.asked + before + 1 ∧ items[before]? = some (.ok last) := by
  induction items generalizing collector with
  | nil =>
    simp only [pieces] at member
    split at member
    · exact absurd member List.not_mem_nil
    · obtain rfl := List.mem_singleton.mp member
      exact (held.not_piece lexemes takes ended).elim
  | cons item items ih =>
    -- What is asked for later is asked for behind this item.
    have later {collector' : Collector} (more : collector'.asked = collector.asked + 1)
        (found : ∃ before, piece.asked = collector'.asked + before + 1 ∧
          items[before]? = some (.ok last)) :
        ∃ before, piece.asked = collector.asked + before + 1 ∧
          (item :: items)[before]? = some (.ok last) := by
      obtain ⟨before, asked, there⟩ := found
      exact ⟨before + 1, by omega, there⟩
    cases item with
    | error fault =>
      have missed : Holds { collector with
        fault := collector.fault.or (some fault), asked := collector.asked + 1 } := held
      exact later rfl (ih missed member)
    | ok lexeme =>
      have asking : collector.asking.Holds := held
      have asked := asked_take collector.asking lexeme
      rcases List.mem_append.mp member with complete | behind
      · obtain rfl := last_of_take asking complete lexemes takes ended
        exact ⟨0, asked.1 piece complete, rfl⟩
      · exact later asked.2 (ih (holds_take asking lexeme) behind)

end Collector

theorem getElem?_classifyAfter {previous : Option Category} {items : List Scanned} {index : Nat}
    {lexeme : Lexeme} (found : (classifyAfter previous items)[index]? = some (.ok lexeme)) :
    items[index]? = some (.ok lexeme.token) ∧ ∃ role, lexeme = lexeme.token.classify role := by
  induction items generalizing previous index with
  | nil => contradiction
  | cons item items ih =>
    cases item with
    | error fault =>
      cases index with
      | zero => simp [classifyAfter] at found
      | succ index => exact ih found
    | ok token =>
      cases index with
      | zero =>
        obtain rfl := Except.ok.inj (Option.some.inj found)
        exact ⟨rfl, previous, rfl⟩
      | succ index => exact ih found

/-- The pieces that are statements, in order; the others are empty. -/
def statementPieces (items : List Classified) : List Piece :=
  (piecesOf items).filter fun piece => piece.node?.isSome

theorem getElem?_filterMap_filter {α β : Type} (f : α → Option β) (list : List α) (index : Nat) :
    (list.filterMap f)[index]? = (list.filter fun entry => (f entry).isSome)[index]?.bind f := by
  induction list generalizing index with
  | nil => rfl
  | cons entry list ih =>
    cases found : f entry with
    | none => simp only [List.filterMap_cons, List.filter_cons, found, Option.isSome_none,
        Bool.false_eq_true, ↓reduceIte, ih]
    | some value =>
      cases index with
      | zero => simp [found]
      | succ index => simpa [List.filterMap_cons, List.filter_cons, found] using ih index

/-- A call answers the tree of its piece, with the reader behind the last item that was asked for.
-/
theorem answerAt_piece {text : List Char} {call : Nat} {piece : Piece}
    (found : (statementPieces (classifyAll (scan text)))[call]? = some piece) :
    answerAt text call = ⟨piece.node?, (called text piece.asked).reader⟩ := by
  have isStatement := (List.mem_filter.mp (List.mem_of_getElem? found)).2
  obtain ⟨node, tree⟩ := Option.isSome_iff_exists.mp isStatement
  have entry : (askedStatements (classifyAll (scan text)))[call]? = some (node, piece.asked) := by
    rw [askedStatements, getElem?_filterMap_filter]
    simp only [Option.isSome_map]
    rw [← statementPieces, found, Option.bind_some, tree]
    rfl
  simp only [answerAt, askedBy, entry, tree]
  rfl

/-! ## Streams -/

/-- Whether a boundary completes a statement of these lexemes with the last of them. -/
def Boundary.CompletesWith (lexemes : List Lexeme) (last : Lexeme) : Prop :=
  ∃ front further final, lexemes = front ++ [last] ∧ start.Takes front further ∧
    further.offer last = (.takeAndEnd, final)

/-- The last lexeme of a statement that it completes is the last item that the statement has asked
for, and no more than two characters are pulled behind it. -/
theorem pulled_of_last {text : List Char} {piece : Piece} {last : Lexeme}
    (member : piece ∈ piecesOf (classifyAll (scan text)))
    (completed : Boundary.CompletesWith piece.lexemes last)
    (ends : ∀ scanned ∈ (scan text).take piece.asked, missesEnd scanned = false) :
    EndsBehind text (.ok last.token) (called text piece.asked).reader.consumed ∧
      (called text piece.asked).reader.ahead ≤ 2 := by
  obtain ⟨front, further, final, lexemes, takes, ended⟩ := completed
  obtain ⟨before, asked, item⟩ :=
    Collector.getElem?_last (Collector.holds_start 0) member lexemes takes ended
  obtain ⟨item, role, classified⟩ := getElem?_classifyAfter item
  rw [getElem?_scan] at item
  have same : piece.asked = before + 1 := by rw [asked, Collector.start, Nat.zero_add]
  rw [same] at ends ⊢
  have closes := Boundary.role_of_last (takes.inside (Int.le_refl 0)) ended
  rw [classified] at closes
  have within (call : Nat) (le : call ≤ before) (scanned : Scanned)
      (answered : answer text call = some scanned) : missesEnd scanned = false := by
    have there : ((scan text).take (before + 1))[call]? = some scanned := by
      rw [List.getElem?_take_of_lt (Nat.lt_succ_of_le le), getElem?_scan, answered]
    exact ends scanned (List.mem_of_getElem? there)
  have near : (called text before).reader.Near := near_called fun scanned member => by
    obtain ⟨call, lt, answered⟩ := List.mem_filterMap.mp member
    exact within call (List.mem_range.mp lt).le scanned answered
  exact ⟨endsBehind_called item,
    (near_next near (within before (Nat.le_refl _))).2 _ item (Token.mayEnd_of_role closes)⟩

end SigilScript
