import SigilScript.Proofs.Interruption

/-! # Splitting as a partition

Splitting leaves no lexeme out and moves none. A piece is what a new boundary takes, up to a lexeme
that completes it: until then the depth never falls below that of its beginning, and at this depth
no terminator is passed. So a new boundary that is offered the piece alone takes the same lexemes
again, whatever stood behind them, and the piece is not split any further.
-/

namespace SigilScript

variable {lexemes statement front rest : List Lexeme} {lexeme last : Lexeme}

/-! ## Pieces -/

/-- The depth behind lexemes, as seen from in front of them. -/
def depthBehind : List Lexeme → Int
  | [] => 0
  | lexeme :: rest => lexeme.category.delta + depthBehind rest

@[simp] theorem depthBehind_nil : depthBehind [] = 0 := rfl

@[simp] theorem depthBehind_cons :
    depthBehind (lexeme :: rest) = lexeme.category.delta + depthBehind rest := rfl

@[simp] theorem depthBehind_append :
    depthBehind (front ++ rest) = depthBehind front + depthBehind rest := by
  induction front with
  | nil => simp
  | cons lexeme front ih => simp [ih, Int.add_assoc]

/-- Whether nothing in a statement but its last lexeme may end it: no proper prefix leaves the
groups around it, and no lexeme in front of the last is a terminator outside of its groups. -/
structure Undivided (statement : List Lexeme) : Prop where
  inside : ∀ front rest : List Lexeme, statement = front ++ rest → rest ≠ [] →
    0 ≤ depthBehind front
  unterminated : ∀ (front : List Lexeme) (lexeme : Lexeme) (rest : List Lexeme),
    statement = front ++ lexeme :: rest → rest ≠ [] → depthBehind front = 0 →
      lexeme.category ≠ .terminator

/-- Whether a statement ends as complete ones do: it leaves the groups around it, or its last lexeme
is a terminator or a closing brace outside of its groups. -/
def EndsStatement (statement : List Lexeme) : Prop :=
  depthBehind statement < 0 ∨ depthBehind statement = 0 ∧
    ∃ last ∈ statement.getLast?, last.category ∈ [.terminator, .rightBrace]

namespace Boundary

variable {boundary further : Boundary}

/-! ## What a boundary takes -/

theorem Takes.depth (takes : boundary.Takes lexemes further) :
    further.depth = boundary.depth + depthBehind lexemes := by
  induction takes with
  | nil => rw [depthBehind_nil, Int.add_zero]
  | @cons boundary further final lexeme rest offered _ ih =>
    have counted := (boundary.offer_counts lexeme).counted (by rw [offered])
    rw [offered] at counted
    rw [ih, counted, depthBehind_cons, Int.add_assoc]

theorem Takes.split (takes : boundary.Takes (front ++ rest) further) :
    ∃ between : Boundary, boundary.Takes front between ∧ between.Takes rest further := by
  induction front generalizing boundary with
  | nil => exact ⟨boundary, .nil boundary, takes⟩
  | cons lexeme front ih =>
    cases takes with
    | cons offered takes =>
      obtain ⟨between, before, behind⟩ := ih takes
      exact ⟨between, .cons offered before, behind⟩

/-- What a new boundary takes never leaves the groups around the statement. -/
theorem Takes.depthBehind_nonneg (takes : start.Takes lexemes further) : 0 ≤ depthBehind lexemes := by
  have inside := takes.inside (Int.le_refl 0)
  rwa [takes.depth, start, Int.zero_add] at inside

/-- A lexeme that a statement goes on behind is no terminator outside of its groups. -/
theorem Takes.goes_on (takes : start.Takes (front ++ lexeme :: rest) further)
    (even : depthBehind front = 0) : lexeme.category ≠ .terminator := by
  intro ends
  obtain ⟨between, before, behind⟩ := takes.split
  have flat : between.depth = 0 := by
    rw [before.depth, even]
    rfl
  cases behind with
  | cons offered _ =>
    rcases offer_terminator ends flat with ended | ended
    · rw [offered] at ended
      contradiction
    · rw [offered] at ended
      contradiction

/-- Whatever the lexeme behind them is, with it the lexemes that a new boundary takes are not
divided. -/
theorem Takes.undivided_append (takes : start.Takes front further) (last : Lexeme) :
    Undivided (front ++ [last]) := by
  constructor
  · intro before behind same more
    obtain ⟨behind, other, rfl⟩ := (List.eq_nil_or_concat behind).resolve_left more
    rw [List.concat_eq_append, ← List.append_assoc] at same
    obtain ⟨rfl, -⟩ := List.append_inj' same rfl
    obtain ⟨between, begun, -⟩ := takes.split
    exact begun.depthBehind_nonneg
  · intro before lexeme behind same more even
    obtain ⟨behind, other, rfl⟩ := (List.eq_nil_or_concat behind).resolve_left more
    rw [List.concat_eq_append, ← List.cons_append, ← List.append_assoc] at same
    obtain ⟨rfl, -⟩ := List.append_inj' same rfl
    exact takes.goes_on even

theorem Takes.undivided (takes : start.Takes statement further) : Undivided statement := by
  rcases List.eq_nil_or_concat statement with rfl | ⟨front, last, rfl⟩
  · exact ⟨by simp, by simp⟩
  · rw [List.concat_eq_append] at takes ⊢
    obtain ⟨between, begun, -⟩ := takes.split
    exact begun.undivided_append last

/-- A chain that awaits a clause ends with the brace that closes its last block. -/
theorem Takes.endsStatement (takes : start.Takes statement further)
    (awaiting : further.awaiting = true) : EndsStatement statement := by
  rcases List.eq_nil_or_concat statement with rfl | ⟨front, last, rfl⟩
  · cases takes
    contradiction
  · rw [List.concat_eq_append] at takes ⊢
    have depth := takes.depth
    obtain ⟨between, -, behind⟩ := takes.split
    cases behind with
    | cons offered behind =>
      have counts := between.offer_counts last
      rw [offered] at counts
      cases behind
      obtain ⟨role, flat⟩ := counts.awaiting rfl awaiting
      rw [flat, start, Int.zero_add] at depth
      exact .inr ⟨depth.symm, last, List.getLast?_concat, by simp [role]⟩

/-! ## What a boundary completes -/

theorem Completes.undivided (completed : start.Completes statement rest) : Undivided statement := by
  rcases completed.ends with ⟨front, last, further, final, rfl, takes, -⟩ |
    ⟨further, final, next, more, -, takes, -⟩
  · exact takes.undivided_append last
  · exact takes.undivided

theorem Completes.endsStatement (completed : start.Completes statement rest) :
    EndsStatement statement := by
  rcases completed.ends with ⟨front, last, further, final, rfl, takes, ended⟩ |
    ⟨further, final, next, more, -, takes, ended⟩
  · have counts := (further.offer_counts last).ended (by rw [ended])
    have depth : depthBehind (front ++ [last]) = further.depth + last.category.delta := by
      rw [takes.depth]
      simp [start]
    rw [← depth] at counts
    exact counts.imp_right fun ended => ⟨ended.1, last, List.getLast?_concat, ended.2⟩
  · have awaiting : further.awaiting = true := by
      by_contra resumed
      exact offer_ne_endBefore (Bool.eq_false_iff.mpr resumed) (congrArg Prod.fst ended)
    exact takes.endsStatement awaiting

theorem Completes.splitStatements_self (completed : start.Completes statement rest) :
    splitStatements statement = [statement] := by
  rcases completed.ends with ⟨front, last, further, final, same, takes, ended⟩ |
    ⟨further, final, next, more, -, takes, -⟩
  · have alone : start.Completes (front ++ [last]) [] := takes.completes (.last [] ended)
    have whole := splitStatements_completed alone
    rwa [List.append_nil, splitStatements, ← same] at whole
  · exact takes.splitStatements_self completed.nonempty

/-- A boundary takes all lexemes, or completes a statement of the first of them. -/
theorem takes_or_splits (boundary : Boundary) (lexemes : List Lexeme) :
    (∃ further : Boundary, boundary.Takes lexemes further) ∨
      ∃ statement rest : List Lexeme, lexemes = statement ++ rest ∧
        boundary.Completes statement rest := by
  induction lexemes generalizing boundary with
  | nil => exact .inl ⟨boundary, .nil boundary⟩
  | cons lexeme rest ih =>
    rcases offered : boundary.offer lexeme with ⟨_ | _ | _, further⟩
    · rcases ih further with ⟨final, takes⟩ | ⟨statement, rest, rfl, completed⟩
      · exact .inl ⟨final, .cons offered takes⟩
      · exact .inr ⟨lexeme :: statement, rest, rfl, .take offered completed⟩
    · exact .inr ⟨[lexeme], rest, rfl, .last rest offered⟩
    · exact .inr ⟨[], lexeme :: rest, rfl, .before rest offered⟩

/-- Lexemes and the pieces that boundaries divide them into: each is completed by a new boundary,
and what is left when the lexemes end is the last. -/
inductive Divides : List Lexeme → List (List Lexeme) → Prop where
  | nil : Divides [] []
  | unfinished {statement : List Lexeme} {further : Boundary} :
    statement ≠ [] → start.Takes statement further → Divides statement [statement]
  | complete {statement rest : List Lexeme} {pieces : List (List Lexeme)} :
    start.Completes statement rest → Divides rest pieces →
      Divides (statement ++ rest) (statement :: pieces)

theorem divides_splitStatements (lexemes : List Lexeme) :
    Divides lexemes (splitStatements lexemes) := by
  induction length : lexemes.length using Nat.strongRecOn generalizing lexemes with
  | ind size ih =>
    rcases start.takes_or_splits lexemes with ⟨further, takes⟩ | ⟨statement, rest, rfl, completed⟩
    · by_cases empty : lexemes = []
      · rw [empty, splitStatements]
        exact .nil
      · rw [takes.splitStatements_self empty]
        exact .unfinished empty takes
    · rw [splitStatements_completed completed]
      have shorter : rest.length < size := by
        have some := List.length_pos_iff.mpr completed.nonempty
        rw [← length, List.length_append]
        omega
      exact .complete completed (ih _ shorter rest rfl)

namespace Divides

variable {pieces : List (List Lexeme)} {part : List Lexeme}

theorem flatten (divides : Divides lexemes pieces) : pieces.flatten = lexemes := by
  induction divides with
  | nil => rfl
  | unfinished => exact List.append_nil _
  | complete _ _ ih => rw [List.flatten_cons, ih]

theorem piece (divides : Divides lexemes pieces) (member : part ∈ pieces) :
    part ≠ [] ∧ Undivided part ∧ splitStatements part = [part] := by
  induction divides with
  | nil => contradiction
  | unfinished nonempty takes =>
    obtain rfl := List.mem_singleton.mp member
    exact ⟨nonempty, takes.undivided, takes.splitStatements_self nonempty⟩
  | complete completed _ ih =>
    rcases List.mem_cons.mp member with rfl | member
    · exact ⟨completed.nonempty, completed.undivided, completed.splitStatements_self⟩
    · exact ih member

/-- Only the last piece may be incomplete. -/
theorem endsStatement {next : List Lexeme} {before behind : List (List Lexeme)}
    (divides : Divides lexemes (before ++ part :: next :: behind)) : EndsStatement part := by
  generalize same : before ++ part :: next :: behind = pieces at divides
  induction divides generalizing before with
  | nil => simp at same
  | unfinished => cases before <;> simp at same
  | complete completed _ ih =>
    cases before with
    | nil =>
      obtain ⟨rfl, -⟩ := List.cons.inj same
      exact completed.endsStatement
    | cons first before => exact ih (List.cons.inj same).2

end Divides

end Boundary

/-- The pieces that lexemes are split into are the lexemes again when put together. None of them is
empty, nothing in one but its last lexeme may end it, and split again it stays whole; all but the
last piece end as complete statements do. -/
theorem splitStatements_partition (lexemes : List Lexeme) :
    (splitStatements lexemes).flatten = lexemes ∧
    (∀ piece ∈ splitStatements lexemes,
      piece ≠ [] ∧ Undivided piece ∧ splitStatements piece = [piece]) ∧
    ∀ (before : List (List Lexeme)) (piece next : List Lexeme) (behind : List (List Lexeme)),
      splitStatements lexemes = before ++ piece :: next :: behind → EndsStatement piece := by
  have divides := Boundary.divides_splitStatements lexemes
  refine ⟨divides.flatten, fun piece member => divides.piece member, ?_⟩
  intro before piece next behind same
  rw [same] at divides
  exact divides.endsStatement

/-- A closing brace that closes nothing ends its statement, and the terminator behind it is another.
-/
theorem splitStatements_partition_stray :
    ∃ one brace semicolon : Lexeme, brace.category = .rightBrace ∧
      splitStatements [one, brace, semicolon] = [[one, brace], [semicolon]] ∧
      Undivided [one, brace] ∧ splitStatements [one, brace] = [[one, brace]] ∧
      EndsStatement [one, brace] := by
  have split : splitStatements [⟨⟨.number, "1", ⟨1, 1⟩⟩, .literal⟩,
      ⟨⟨.closeBrace, "\x7d", ⟨1, 2⟩⟩, .rightBrace⟩, ⟨⟨.semicolon, ";", ⟨1, 3⟩⟩, .terminator⟩] =
      [[⟨⟨.number, "1", ⟨1, 1⟩⟩, .literal⟩, ⟨⟨.closeBrace, "\x7d", ⟨1, 2⟩⟩, .rightBrace⟩],
        [⟨⟨.semicolon, ";", ⟨1, 3⟩⟩, .terminator⟩]] := by
    with_unfolding_all rfl
  obtain ⟨-, pieces, ends⟩ := splitStatements_partition [⟨⟨.number, "1", ⟨1, 1⟩⟩, .literal⟩,
    ⟨⟨.closeBrace, "\x7d", ⟨1, 2⟩⟩, .rightBrace⟩, ⟨⟨.semicolon, ";", ⟨1, 3⟩⟩, .terminator⟩]
  obtain ⟨-, undivided, whole⟩ := pieces _ (by rw [split]; exact List.mem_cons_self ..)
  exact ⟨_, _, _, rfl, split, undivided, whole, ends [] _ _ _ split⟩

end SigilScript
