import SigilScript.Proofs.Collector
import SigilScript.Proofs.Scan.Calls
import SigilScript.Stream

/-! # Answers, call by call

A call for a statement asks the scanner for items until its statement is complete, and its reader is
then the one behind the last item that was asked for. What later items are does not matter for it:
the pieces that were complete by then are the same whatever follows.
-/

namespace SigilScript

/-! ## Calls of the scanner -/

namespace Scanner

variable {text : List Char}

theorem getElem?_remaining (text : List Char) (calls more : Nat) :
    (called text calls).remaining[more]? = answer text (calls + more) := by
  induction more generalizing calls with
  | zero =>
    have read := next_called text calls
    cases found : answer text calls with
    | none =>
      rw [found] at read
      rw [remaining_of_none read]
      rfl
    | some item =>
      rw [found] at read
      rw [remaining_of_some read]
      rfl
  | succ more ih =>
    have read := next_called text calls
    cases found : answer text calls with
    | none =>
      rw [found] at read
      rw [remaining_of_none read, answer_none_of_le found (Nat.le_add_right ..)]
      rfl
    | some item =>
      rw [found] at read
      rw [remaining_of_some read, List.getElem?_cons_succ, ih, Nat.succ_add_eq_add_succ]

theorem trace_called {calls allowed : Nat}
    (enough : (called text calls).reader.unread.length < allowed) :
    (called text calls).trace allowed =
      (List.range ((called text calls).remaining.length + 1)).map fun more =>
        (answer text (calls + more), called text (calls + more + 1)) := by
  induction allowed generalizing calls with
  | zero => contradiction
  | succ allowed ih =>
    have read := next_called text calls
    rw [List.range_succ_eq_map, List.map_cons, List.map_map]
    cases found : answer text calls with
    | none =>
      rw [found] at read
      simp only [trace, read, remaining_of_none read, Nat.add_zero]
      rfl
    | some item =>
      rw [found] at read
      have shorter := (next_some read).2.1.length_lt
      simp only [trace, read, remaining_of_some read, Nat.add_zero, List.length_cons]
      rw [ih (by omega)]
      refine congrArg _ (List.map_congr_left fun more _ => ?_)
      simp only [Function.comp_apply, Nat.succ_add_eq_add_succ]

end Scanner

open Scanner

/-- The items of a scan are what its calls answer. -/
theorem getElem?_scan (text : List Char) (calls : Nat) :
    (scan text)[calls]? = answer text calls := by
  have item := getElem?_remaining text 0 calls
  rwa [Nat.zero_add, show called text 0 = .start text from rfl, ← scan_eq_remaining] at item

theorem scanTrace_eq (text : List Char) :
    scanTrace text = (List.range ((scan text).length + 1)).map fun call =>
      (answer text call, called text (call + 1)) := by
  have enough := Nat.lt_succ_of_le (Reader.length_unread_start text)
  have trace := @trace_called text 0 _ enough
  simp only [Nat.zero_add] at trace
  rw [scan_eq_remaining]
  exact trace

/-! ## Pieces -/

namespace Collector

/-- A lexeme that is taken asks for nothing. -/
theorem asked_take (collector : Collector) (lexeme : Lexeme) :
    (∀ piece ∈ (collector.take lexeme).1, piece.asked = collector.asked) ∧
      (collector.take lexeme).2.asked = collector.asked := by
  simp only [take]
  split
  · exact ⟨List.forall_mem_nil _, rfl⟩
  · exact ⟨List.forall_mem_singleton.mpr rfl, rfl⟩
  · split
    · exact ⟨List.forall_mem_singleton.mpr rfl, rfl⟩
    · exact ⟨List.forall_mem_cons.mpr ⟨rfl, List.forall_mem_singleton.mpr rfl⟩, rfl⟩

/-- A piece has asked for more than was asked for before, and for no more than there is; the end of
the items counts as one. -/
theorem asked_pieces (collector : Collector) (items : List Classified) :
    ∀ piece ∈ collector.pieces items,
      collector.asked < piece.asked ∧ piece.asked ≤ collector.asked + items.length + 1 := by
  induction items generalizing collector with
  | nil =>
    intro piece member
    simp only [pieces] at member
    split at member
    · exact absurd member List.not_mem_nil
    · obtain rfl := List.mem_singleton.mp member
      exact ⟨Nat.lt_succ_self _, Nat.le_refl _⟩
  | cons item items ih =>
    intro piece member
    rw [List.length_cons]
    cases item with
    | error fault =>
      have bounds := ih _ piece member
      simp only at bounds
      omega
    | ok lexeme =>
      obtain ⟨now, later⟩ := asked_take collector.asking lexeme
      have asking : collector.asking.asked = collector.asked + 1 := rfl
      rcases List.mem_append.mp member with complete | further
      · have asked := now piece complete
        omega
      · have bounds := ih _ piece further
        have started : (collector.asking.take lexeme).2.asked = collector.asked + 1 := later
        change (collector.asking.take lexeme).2.asked < _ ∧
          _ ≤ (collector.asking.take lexeme).2.asked + _ + 1 at bounds
        omega

/-- The pieces that were complete when so many items had been asked for are the same whatever the
later items are. -/
theorem pieces_alike (collector : Collector) {items items' : List Classified} {asked : Nat}
    (alike : items'.take asked = items.take asked) (enough : asked ≤ items.length) :
    ∃ complete later later', collector.pieces items = complete ++ later ∧
      collector.pieces items' = complete ++ later' ∧
      ∀ piece ∈ later, collector.asked + asked < piece.asked := by
  induction asked generalizing collector items items' with
  | zero =>
    exact ⟨[], _, _, rfl, rfl, fun piece member => (asked_pieces collector items piece member).1⟩
  | succ asked ih =>
    obtain ⟨item, items, rfl⟩ := List.exists_cons_of_length_pos (Nat.zero_lt_of_lt enough)
    rcases items' with _ | ⟨item', items'⟩
    · rw [List.take_nil, List.take_succ_cons] at alike
      contradiction
    · rw [List.take_succ_cons, List.take_succ_cons, List.cons.injEq] at alike
      obtain ⟨rfl, alike⟩ := alike
      have fewer : asked ≤ items.length := Nat.le_of_succ_le_succ enough
      cases item' with
      | error fault =>
        obtain ⟨complete, later, later', split, split', behind⟩ := ih
          { collector with fault := collector.fault.or (some fault), asked := collector.asked + 1 }
          alike fewer
        refine ⟨complete, later, later', split, split', fun piece member => ?_⟩
        have bound := behind piece member
        simp only at bound
        omega
      | ok lexeme =>
        obtain ⟨complete, later, later', split, split', behind⟩ :=
          ih (collector.asking.take lexeme).2 alike fewer
        refine ⟨(collector.asking.take lexeme).1 ++ complete, later, later', ?_, ?_,
          fun piece member => ?_⟩
        · rw [List.append_assoc, ← split]
          rfl
        · rw [List.append_assoc, ← split']
          rfl
        · have bound := behind piece member
          rw [(asked_take collector.asking lexeme).2] at bound
          simp only [asking] at bound
          omega

end Collector

/-- A list that goes on behind what another list agrees with goes on as it does, or both end there.
-/
theorem eq_of_take_alike {α : Type} {items items' : List α} {asked : Nat}
    (alike : items'.take asked = items.take asked) (ended : items.length < asked) :
    items' = items := by
  have length := congrArg List.length alike
  rw [List.length_take, List.length_take] at length
  rw [List.take_of_length_le (by omega), List.take_of_length_le (by omega)] at alike
  exact alike

/-- A statement that was found with so many items is found just so whatever the later items are. -/
theorem askedStatements_alike {items items' : List Classified} {call asked : Nat} {node : Node}
    (found : (askedStatements items)[call]? = some (node, asked))
    (alike : items'.take asked = items.take asked) :
    (askedStatements items')[call]? = some (node, asked) := by
  by_cases ended : items.length < asked
  · rwa [eq_of_take_alike alike ended]
  · obtain ⟨complete, later, later', split, split', behind⟩ :=
      (Collector.start 0).pieces_alike alike (Nat.le_of_not_lt ended)
    rw [askedStatements, piecesOf, split, List.filterMap_append] at found
    rw [askedStatements, piecesOf, split', List.filterMap_append]
    have within : call < (complete.filterMap fun piece =>
        piece.node?.map fun node => (node, piece.asked)).length := by
      by_contra beyond
      rw [List.getElem?_append_right (Nat.le_of_not_lt beyond)] at found
      obtain ⟨piece, member, tree⟩ := List.mem_filterMap.mp (List.mem_of_getElem? found)
      obtain ⟨node, -, same⟩ := Option.map_eq_some_iff.mp tree
      have bound := behind piece member
      rw [(Prod.mk.inj same).2] at bound
      simp [Collector.start] at bound
    rw [List.getElem?_append_left within] at found ⊢
    exact found

/-! ## Answers -/

/-- How many items a call has asked for when it answers; a call that finds no statement has asked
for all of them and for the end. -/
def askedBy (text : List Char) (call : Nat) : Nat :=
  (askedStatements (classifyAll (scan text)))[call]?.elim ((scan text).length + 1) Prod.snd

/-- What a call answers. -/
def answerAt (text : List Char) (call : Nat) : Answer :=
  ⟨(askedStatements (classifyAll (scan text)))[call]?.map Prod.fst,
    (called text (askedBy text call)).reader⟩

theorem classifyAfter_take (previous : Option Category) (items : List Scanned) (count : Nat) :
    classifyAfter previous (items.take count) = (classifyAfter previous items).take count := by
  induction items generalizing previous count with
  | nil => simp [classifyAfter]
  | cons item items ih =>
    cases count with
    | zero => rfl
    | succ count => cases item <;> simp only [List.take_succ_cons, classifyAfter, ih]

theorem length_classifyAfter (previous : Option Category) (items : List Scanned) :
    (classifyAfter previous items).length = items.length := by
  induction items generalizing previous with
  | nil => rfl
  | cons item items ih => cases item <;> simp only [classifyAfter, List.length_cons, ih]

/-- A statement has asked for one item at least, and for no more than there are and their end. -/
theorem asked_bounds {text : List Char} {entry : Node × Nat}
    (member : entry ∈ askedStatements (classifyAll (scan text))) :
    0 < entry.2 ∧ entry.2 ≤ (scan text).length + 1 := by
  obtain ⟨piece, isPiece, tree⟩ := List.mem_filterMap.mp member
  obtain ⟨node, -, rfl⟩ := Option.map_eq_some_iff.mp tree
  have bounds := Collector.asked_pieces _ _ piece isPiece
  rw [classifyAll, length_classifyAfter] at bounds
  simpa [Collector.start, Nat.add_comm] using bounds

/-- The answers of a text are what its calls answer. -/
theorem answers_eq (text : List Char) (calls : Nat) :
    answers text calls = (List.range calls).map (answerAt text) := by
  have readers : (scanTrace text).map (fun call => call.2.reader) =
      (List.range ((scan text).length + 1)).map fun call => (called text (call + 1)).reader := by
    rw [scanTrace_eq, List.map_map]
    rfl
  have final : ((scanTrace text).map fun call => call.2.reader).getLastD (.start text) =
      (called text ((scan text).length + 1)).reader := by
    rw [readers, List.range_succ, List.map_append, List.map_singleton, List.getLastD_concat]
  have reader (asked : Nat) (bounds : 0 < asked ∧ asked ≤ (scan text).length + 1)
      (other : Reader) : ((scanTrace text).map fun call => call.2.reader).getD (asked - 1) other =
        (called text asked).reader := by
    have inside : asked - 1 < (scan text).length + 1 := by omega
    rw [readers, List.getD_eq_getElem?_getD, List.getElem?_map, List.getElem?_range inside,
      Option.map_some, Option.getD_some, Nat.sub_add_cancel bounds.1]
  apply List.ext_getElem?
  intro call
  by_cases within : call < calls
  · simp only [answers, final]
    rw [List.getElem?_take_of_lt within, List.getElem?_map, List.getElem?_range within,
      Option.map_some]
    rcases found : (askedStatements (classifyAll (scan text)))[call]? with _ | entry
    · have beyond := List.getElem?_eq_none_iff.mp found
      rw [List.getElem?_append_right (by rwa [List.length_map]), List.getElem?_replicate,
        List.length_map, if_pos (by omega), answerAt, askedBy, found]
      rfl
    · have bounds := asked_bounds (List.mem_of_getElem? found)
      obtain ⟨inside, -⟩ := List.getElem?_eq_some_iff.mp found
      rw [List.getElem?_append_left (by rwa [List.length_map]), List.getElem?_map,
        ← scan, found, answerAt, askedBy, found, Option.map_some]
      exact congrArg (fun reader => some (⟨some entry.1, reader⟩ : Answer)) (reader _ bounds _)
  · simp only [answers]
    rw [List.getElem?_eq_none, List.getElem?_eq_none]
    · simpa using Nat.le_of_not_lt within
    · rw [List.length_take]
      omega

end SigilScript
