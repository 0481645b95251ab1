import SigilScript.Proofs.Completion
import SigilScript.Proofs.Grammar.Divided

/-! # How far a statement goes

Lexemes without a terminator on their level are taken whole, unless a block in them completes a
statement. The first statement of a program whose only tree is a chain bears no block, so nothing
in it completes it but its terminator.
-/

namespace SigilScript

variable {lexemes rest : List Lexeme} {lexeme next : Lexeme}

theorem Unterminated.nil : Unterminated [] := by
  intro last ends
  contradiction

theorem Unterminated.cons (unterminated : Unterminated rest)
    (goesOn : rest = [] → lexeme.category ≠ .terminator) : Unterminated (lexeme :: rest) := by
  intro last ends
  rcases List.eq_nil_or_concat rest with rfl | ⟨front, other, rfl⟩
  · rw [← Option.some.inj ends]
    exact goesOn rfl
  · apply unterminated last
    rw [List.concat_eq_append] at ends ⊢
    rwa [← List.cons_append, List.getLast?_concat, ← List.getLast?_concat (l := front)] at ends

/-- On its level and behind it the depth of a lexeme is counted alike. -/
theorem Category.depthAfter?_of_level {category : Category} {depth : Nat}
    (level : 0 ≤ (depth : Int) + category.delta) :
    ∃ further : Nat, category.depthAfter? depth = some further ∧
      (further : Int) = depth + category.delta := by
  by_cases opens : category.isOpener = true
  · exact ⟨depth + 1, depthAfter?_opener opens depth, by rw [delta_opener opens]; rfl⟩
  · by_cases closes : category.isCloser = true
    · rw [delta_closer closes] at level ⊢
      obtain ⟨fewer, rfl⟩ : ∃ fewer, depth = fewer + 1 := ⟨depth - 1, by omega⟩
      exact ⟨fewer, depthAfter?_closer closes fewer, by omega⟩
    · rw [Bool.not_eq_true] at opens closes
      exact ⟨depth, depthAfter?_plain opens closes depth, by rw [delta_plain opens closes]; omega⟩

/-- A terminator continues no chain. -/
theorem Chain.continuedBy_terminator (ends : lexeme.category = .terminator) (chain : Chain) :
    chain.continuedBy lexeme = false := by
  cases chain <;> simp [Chain.continuedBy, ends]

namespace Boundary

variable {boundary : Boundary}

/-- What a boundary takes before it completes a statement belongs to the statement. -/
theorem Takes.completes {further : Boundary} {front statement : List Lexeme}
    (takes : boundary.Takes front further) (completed : further.Completes statement rest) :
    boundary.Completes (front ++ statement) rest := by
  induction takes with
  | nil => exact completed
  | cons offered _ ih => exact .take offered (ih completed)

/-! ## One lexeme -/

/-- What is known of the answer to a lexeme at some depth: a lexeme that is taken is counted, and
only a closing brace outside of its groups leaves a chain open; one that completes the statement
leaves its groups, or is a terminator or a closing brace in none of them. -/
structure Counts (depth : Int) (lexeme : Lexeme) (answer : Offer × Boundary) : Prop where
  counted : answer.1 = .take → answer.2.depth = depth + lexeme.category.delta
  awaiting : answer.1 = .take → answer.2.awaiting = true →
    lexeme.category = .rightBrace ∧ answer.2.depth = 0
  ended : answer.1 = .takeAndEnd → depth + lexeme.category.delta < 0 ∨
    depth + lexeme.category.delta = 0 ∧ lexeme.category ∈ [.terminator, .rightBrace]

theorem settle_counts (boundary : Boundary) (resumed : boundary.awaiting = false) :
    Counts boundary.depth lexeme (boundary.settle lexeme) := by
  have resting : ¬ boundary.awaiting = true := Bool.eq_false_iff.mp resumed
  simp only [settle]
  split
  · next left => exact ⟨by simp, by simp, fun _ => .inl left⟩
  · next inside =>
    split
    · exact ⟨fun _ => rfl, fun _ awaiting => absurd awaiting resting, by simp⟩
    · next outermost =>
      have flat : boundary.depth + lexeme.category.delta = 0 := by
        exact Int.le_antisymm (Int.not_lt.mp outermost) (Int.not_lt.mp inside)
      split
      · next role => exact ⟨by simp, by simp, fun _ => .inr ⟨flat, by simp [role]⟩⟩
      · next role _ => exact ⟨by simp, by simp, fun _ => .inr ⟨flat, by simp [role]⟩⟩
      · next role _ =>
        split
        · exact ⟨by simp, by simp, fun _ => .inr ⟨flat, by simp [role]⟩⟩
        · exact ⟨fun _ => rfl, fun _ _ => ⟨role, flat⟩, by simp⟩
      · exact ⟨fun _ => rfl, fun _ awaiting => absurd awaiting resting, by simp⟩

theorem accept_counts (boundary : Boundary) (resumed : boundary.awaiting = false) :
    Counts boundary.depth lexeme (boundary.accept lexeme) := by
  have settled (head : Head) :
      Counts boundary.depth lexeme (settle { boundary with head } lexeme) :=
    settle_counts { boundary with head } resumed
  simp only [accept]
  split
  · exact settled _
  · split
    · next colon =>
      have flat : boundary.depth = boundary.depth + lexeme.category.delta := by
        rw [colon]
        exact (Int.add_zero _).symm
      refine ⟨fun _ => flat, fun _ awaiting => ?_, by simp⟩
      rw [show boundary.awaiting = true from awaiting] at resumed
      contradiction
    · split
      · exact settled _
      · exact settled _
  · exact settled _
  · exact settle_counts boundary resumed
  · exact settle_counts boundary resumed

theorem offer_counts (boundary : Boundary) (lexeme : Lexeme) :
    Counts boundary.depth lexeme (boundary.offer lexeme) := by
  simp only [offer]
  split
  · split
    · split
      · exact accept_counts { boundary with
          awaiting := false, chainClosed := boundary.chainClosed || lexeme.closesChain } rfl
      · exact ⟨by simp, by simp, by simp⟩
    · exact ⟨by simp, by simp, by simp⟩
  · next resumed => exact accept_counts boundary (Bool.eq_false_iff.mpr resumed)

/-- A lexeme that leaves the group around the statement is no part that the statement goes on
behind. -/
theorem accept_outside (inside : 0 ≤ boundary.depth)
    (outside : boundary.depth + lexeme.category.delta < 0) :
    (boundary.accept lexeme).1 = .takeAndEnd := by
  have settled (head : Head) : (settle { boundary with head } lexeme).1 = .takeAndEnd := by
    simp only [settle, if_pos outside]
  simp only [accept]
  split
  · exact settled _
  · split
    · next colon =>
      have flat : lexeme.category.delta = 0 := by rw [colon]; rfl
      omega
    · split
      · exact settled _
      · exact settled _
  · exact settled _
  · exact settled _
  · exact settled _

theorem offer_inside {further : Boundary} (inside : 0 ≤ boundary.depth)
    (taken : boundary.offer lexeme = (.take, further)) : 0 ≤ further.depth := by
  have counted := (boundary.offer_counts lexeme).counted (by rw [taken])
  rw [taken] at counted
  rw [counted]
  by_contra outside
  rw [Int.not_le] at outside
  simp only [offer] at taken
  split at taken
  · split at taken
    · split at taken
      · next chain _ _ =>
        have ended : (accept { boundary with
            awaiting := false, chainClosed := boundary.chainClosed || lexeme.closesChain } lexeme).1 =
            .takeAndEnd := accept_outside inside outside
        simp [taken] at ended
      · simp at taken
    · simp at taken
  · have ended := accept_outside inside outside
    simp [taken] at ended

theorem offer_resumed (resumed : boundary.awaiting = false) :
    boundary.offer lexeme = boundary.accept lexeme := by
  simp only [offer, resumed, Bool.false_eq_true, ↓reduceIte]

/-- A statement that awaits nothing goes on with any lexeme or ends with it. -/
theorem offer_ne_endBefore (resumed : boundary.awaiting = false) :
    (boundary.offer lexeme).1 ≠ .endBefore := by
  rw [offer_resumed resumed]
  exact accept_ne_endBefore boundary lexeme

/-! ## Many lexemes -/

/-- What a boundary takes leads nowhere outside of the groups around it. -/
theorem Takes.inside {further : Boundary} (takes : boundary.Takes lexemes further)
    (inside : 0 ≤ boundary.depth) : 0 ≤ further.depth := by
  induction takes with
  | nil => exact inside
  | cons offered _ ih => exact ih (offer_inside inside offered)

/-- What becomes of lexemes without a terminator on their level, where a lexeme behind them
continues no chain: they are taken whole, or something in them completes a statement. -/
theorem takes_or_completes {depth : Nat} (same : boundary.depth = depth)
    (level : Level depth lexemes)
    (outside : cutAtTopLevel? (fun lexeme => lexeme.category = .terminator) depth lexemes = none)
    (next : Lexeme) (alone : ∀ chain : Chain, chain.continuedBy next = false) :
    (∃ further : Boundary, boundary.Takes lexemes further ∧ 0 ≤ further.depth ∧
      further.awaiting = false) ∨
    ∃ statement rest : List Lexeme, lexemes = statement ++ rest ∧ Unterminated statement ∧
      (statement = [] → boundary.awaiting = true) ∧
      ∀ more, boundary.Completes statement (rest ++ next :: more) := by
  induction lexemes generalizing boundary depth with
  | nil =>
    by_cases awaiting : boundary.awaiting = true
    · have ended : ∃ further : Boundary, boundary.offer next = (.endBefore, further) := by
        simp only [offer, awaiting, ↓reduceIte, alone, Bool.false_eq_true]
        split <;> exact ⟨_, rfl⟩
      obtain ⟨further, ended⟩ := ended
      exact .inr ⟨[], [], rfl, .nil, fun _ => awaiting, fun more => .before more ended⟩
    · exact .inl ⟨boundary, .nil boundary, by omega, Bool.eq_false_iff.mpr awaiting⟩
  | cons lexeme rest ih =>
    obtain ⟨further, counted, same'⟩ := Category.depthAfter?_of_level level.1
    simp only [cutAtTopLevel?, counted] at outside
    split at outside
    · contradiction
    · next goesOn =>
      have counts := boundary.offer_counts lexeme
      rcases offered : boundary.offer lexeme with ⟨_ | _ | _, after⟩
      · rw [offered] at counts
        have inside : after.depth = further := by
          rw [same', ← same]
          exact counts.counted rfl
        have level' : Level further rest := by
          rw [same']
          exact level.2
        rcases ih inside level' (Option.map_eq_none_iff.mp outside) with
          ⟨final, takes, resumed⟩ | ⟨statement, rest, rfl, unterminated, awaits, completed⟩
        · exact .inl ⟨final, .cons offered takes, resumed⟩
        · refine .inr ⟨lexeme :: statement, rest, rfl, unterminated.cons fun empty ends => ?_,
            by simp, fun more => .take offered (completed more)⟩
          -- Only a brace leaves a chain open that the lexeme behind it ends.
          rw [(counts.awaiting rfl (awaits empty)).1] at ends
          contradiction
      · rw [offered] at counts
        refine .inr ⟨[lexeme], rest, rfl, Unterminated.nil.cons fun _ ends => goesOn ?_, by simp,
          fun more => .last _ offered⟩
        have flat : Category.terminator.delta = 0 := rfl
        have ended := counts.ended rfl
        rw [same, ends, flat] at ended
        exact ⟨by omega, by simp [ends]⟩
      · have awaiting : boundary.awaiting = true := by
          by_contra resumed
          rw [Bool.not_eq_true] at resumed
          exact offer_ne_endBefore resumed (congrArg Prod.fst offered)
        exact .inr ⟨[], _, rfl, .nil, fun _ => awaiting, fun more => .before _ offered⟩

/-- A statement without a block takes the lexemes in front of its own terminator. -/
theorem takes_simple {depth : Nat} (simple : boundary.head = .simple)
    (resumed : boundary.awaiting = false) (same : boundary.depth = depth)
    (level : Level depth lexemes)
    (outside : cutAtTopLevel? (fun lexeme => lexeme.category = .terminator) depth lexemes = none)
    (ends : next.category = .terminator) :
    ∃ further : Boundary, boundary.Takes lexemes further ∧ further.awaiting = false := by
  rcases takes_or_completes same level outside next (Chain.continuedBy_terminator ends) with
    ⟨further, takes, -, resumed⟩ | ⟨statement, rest, rfl, unterminated, -, completed⟩
  · exact ⟨further, takes, resumed⟩
  · rw [← same] at level
    obtain ⟨last, ends, role⟩ := (completed []).terminated simple resumed level.front
    exact absurd role (unterminated last ends)

/-- Within its groups a statement that awaits nothing takes a lexeme that is no bracket and no
terminator. -/
theorem offer_plain (plain : lexeme.category.delta = 0) (goesOn : lexeme.category ≠ .terminator)
    (inside : 0 ≤ boundary.depth) (resumed : boundary.awaiting = false) :
    ∃ further : Boundary, boundary.offer lexeme = (.take, further) ∧ 0 ≤ further.depth ∧
      further.awaiting = false := by
  have noBrace : lexeme.category ≠ .rightBrace := by
    intro same
    rw [same] at plain
    contradiction
  have counts := boundary.offer_counts lexeme
  rcases offered : boundary.offer lexeme with ⟨_ | _ | _, further⟩
  · rw [offered] at counts
    have same := counts.counted rfl
    rw [plain, Int.add_zero] at same
    refine ⟨further, rfl, same ▸ inside, ?_⟩
    exact Bool.eq_false_iff.mpr fun awaiting => noBrace (counts.awaiting rfl awaiting).1
  · rw [offered] at counts
    rcases counts.ended rfl with left | ⟨-, role⟩
    · omega
    · simp [goesOn, noBrace] at role
  · exact absurd (congrArg Prod.fst offered) (offer_ne_endBefore resumed)

/-- Within their groups lexemes that are no brackets and no terminators are taken. -/
theorem takes_plain (plain : ∀ lexeme ∈ lexemes, lexeme.category.delta = 0 ∧
      lexeme.category ≠ .terminator)
    (inside : 0 ≤ boundary.depth) (resumed : boundary.awaiting = false) :
    ∃ further : Boundary, boundary.Takes lexemes further ∧ further.awaiting = false := by
  induction lexemes generalizing boundary with
  | nil => exact ⟨boundary, .nil boundary, resumed⟩
  | cons lexeme rest ih =>
    obtain ⟨flat, goesOn⟩ := plain lexeme (List.mem_cons_self ..)
    obtain ⟨after, taken, inside, resumed⟩ := offer_plain flat goesOn inside resumed
    obtain ⟨further, takes, resumed⟩ :=
      ih (fun other member => plain other (List.mem_cons_of_mem _ member)) inside resumed
    exact ⟨further, .cons taken takes, resumed⟩

theorem Takes.extent {further : Boundary} (takes : boundary.Takes lexemes further) :
    boundary.extent lexemes = lexemes.length := by
  induction takes with
  | nil => rfl
  | cons offered _ ih => simp only [Boundary.extent, offered, ih, List.length_cons]

/-- Lexemes that are taken whole are one statement. -/
theorem Takes.splitStatements_self {further : Boundary} (takes : start.Takes lexemes further)
    (nonempty : lexemes ≠ []) : splitStatements lexemes = [lexemes] := by
  obtain ⟨first, more, rfl⟩ := List.exists_cons_of_ne_nil nonempty
  rw [splitStatements_cons, takes.extent, List.take_length, List.drop_length,
    SigilScript.splitStatements]

/-- Lexemes that are taken whole are one statement with the lexeme behind them. -/
theorem Takes.splitStatements {further : Boundary} (takes : start.Takes lexemes further)
    (resumed : further.awaiting = false) (last : Lexeme) :
    splitStatements (lexemes ++ [last]) = [lexemes ++ [last]] := by
  rcases offered : further.offer last with ⟨_ | _ | _, after⟩
  · exact (takes.append (.cons offered (.nil after))).splitStatements_self (by simp)
  · have whole := splitStatements_completed (takes.completes (.last [] offered))
    rwa [List.append_nil, SigilScript.splitStatements] at whole
  · exact absurd (congrArg Prod.fst offered) (offer_ne_endBefore resumed)

end Boundary

/-! ## Programs that are one chain -/

/-- A statement that no terminator ends is no chain. -/
theorem unchained_of_completed {statement : List Lexeme}
    (completed : Boundary.start.Completes statement rest) (level : Level 0 statement)
    (names : ∀ lexeme ∈ statement, lexeme.category = .identifier → lexeme.isWord = true)
    (unterminated : Unterminated statement) :
    ∃ node : Node, parseStatement statement = some node ∧
      (node.faults = [] → node.isChained = false) := by
  rw [parseStatement_eq]
  obtain ⟨node, read, ⟨anchor, rfl⟩ | ⟨head, tail, same, shape⟩⟩ :=
    Grammar.readStatement_cases completed.nonempty unterminated
  · exact ⟨_, read, fun _ => rfl⟩
  · refine ⟨node, read, fun sound => ?_⟩
    have behind (sound : (Grammar.full.readModified head tail).faults = []) :
        (Grammar.full.readModified head tail).isChained = false := by
      obtain ⟨first, more, rfl⟩ := List.exists_cons_of_ne_nil completed.nonempty
      rcases completed.bears level unterminated with
        bears | ⟨name, colon, more, rfl, separates, completed⟩
      · rw [unlabelled_of_bears bears] at same
        obtain ⟨rfl, rfl⟩ := List.cons.inj same
        exact Grammar.readModified_bears bears
      · obtain rfl : more = head :: tail := (if_pos ⟨name, separates⟩).symm.trans same
        have inside : Level 0 (head :: tail) := by
          have behind := level.2.2
          rwa [name, separates] at behind
        rcases completed.bears inside unterminated.tail.tail with
          bears | ⟨name, colon, more, rfl, separates, -⟩
        · exact Grammar.readModified_bears bears
        · exact Grammar.readModified_label (names head (by simp) name) name separates sound
    rcases shape with rfl | ⟨label, rfl⟩
    · exact behind sound
    · rw [Node.faults_labelled] at sound
      by_contra chained
      rw [Bool.not_eq_false] at chained
      rw [Node.labelled_chained chained, behind sound] at chained
      contradiction

/-- The boundary takes all lexemes of a program whose only tree is a chain. -/
theorem takes_of_chained {last : Lexeme} {node : Node} (ends : last.category = .terminator)
    (level : Level 0 lexemes) (outside : hasTopLevel lexemes .terminator = false)
    (names : ∀ lexeme ∈ lexemes, lexeme.category = .identifier → lexeme.isWord = true)
    (read : parseItems ((lexemes ++ [last]).map .ok) = [node]) (sound : node.faults = [])
    (chained : node.isChained = true) :
    parseStatement (lexemes ++ [last]) = some node ∧
      ∃ further : Boundary, Boundary.start.Takes lexemes further ∧ 0 ≤ further.depth ∧
        further.awaiting = false := by
  rw [parseItems_ok] at read
  have flat : Boundary.start.depth = (0 : Nat) := rfl
  have outside : cutAtTopLevel? (fun lexeme => lexeme.category = .terminator) 0 lexemes = none :=
    Option.isSome_eq_false_iff.mp outside |> Option.isNone_iff_eq_none.mp
  rcases Boundary.takes_or_completes flat level outside last
      (Chain.continuedBy_terminator ends) with
    ⟨further, takes, inside, resumed⟩ | ⟨statement, rest, rfl, unterminated, -, completed⟩
  · refine ⟨?_, further, takes, inside, resumed⟩
    rw [takes.splitStatements resumed last] at read
    exact Option.toList_eq_singleton_iff.mp read
  · obtain ⟨first, parsed, unchained⟩ := unchained_of_completed (completed []) level.front
      (fun lexeme member => names lexeme (List.mem_append_left _ member)) unterminated
    rw [List.append_assoc, splitStatements_completed (completed []),
      List.filterMap_cons_some parsed] at read
    obtain ⟨rfl, -⟩ := List.cons.inj read
    rw [unchained sound] at chained
    contradiction

end SigilScript
