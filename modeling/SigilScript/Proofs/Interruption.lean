import SigilScript.Proofs.Batches
import SigilScript.Proofs.Extent

/-! # Faults behind a statement

A fault that is met behind a statement leaves its tree alone where the statement is known to be
complete with its last lexeme. Where only the lexeme behind it tells that it is complete, as with a
chain that may have a further clause, the fault is met while the statement is still being collected,
and takes the place of its tree.
-/

namespace SigilScript

/-- Whether a statement is complete on its own: nothing that stands behind it extends it. -/
def Conclusive (statement : List Lexeme) : Prop :=
  ∀ rest : List Lexeme, (splitStatements (statement ++ rest)).head? = some statement

theorem head?_splitStatements {lexemes : List Lexeme} (nonempty : lexemes ≠ []) :
    (splitStatements lexemes).head? = some (lexemes.take (Boundary.start.extent lexemes)) := by
  obtain ⟨lexeme, rest, rfl⟩ := List.exists_cons_of_ne_nil nonempty
  rw [splitStatements_cons, List.head?_cons]

namespace Boundary

variable {boundary further : Boundary} {lexemes statement rest : List Lexeme}

/-! ## Chains that may go on -/

/-- Whether a boundary awaits a clause only where a chain may have one. -/
def Expectant (boundary : Boundary) : Prop :=
  boundary.awaiting = true →
    boundary.head = .blockBearing .conditional ∨ boundary.head = .blockBearing .attempt

theorem expectant_of_resumed (resumed : boundary.awaiting = false) : boundary.Expectant := by
  intro awaiting
  rw [resumed] at awaiting
  contradiction

theorem expectant_settle (resumed : boundary.awaiting = false) (lexeme : Lexeme) :
    (boundary.settle lexeme).2.Expectant := by
  simp only [settle]
  split
  · exact expectant_of_resumed resumed
  · split
    · exact expectant_of_resumed resumed
    · split
      · exact expectant_of_resumed resumed
      · exact expectant_of_resumed resumed
      · next chain bears _ ofChain =>
        split
        · exact expectant_of_resumed resumed
        · intro _
          cases chain with
          | alone => exact absurd rfl bears
          | conditional => exact .inl ofChain
          | attempt => exact .inr ofChain
      · exact expectant_of_resumed resumed

theorem expectant_accept (resumed : boundary.awaiting = false) (lexeme : Lexeme) :
    (boundary.accept lexeme).2.Expectant := by
  have settled (head : Head) : (settle { boundary with head } lexeme).2.Expectant := by
    have same : ({ boundary with head } : Boundary).awaiting = false := resumed
    exact expectant_settle same lexeme
  simp only [accept]
  split
  · exact settled _
  · split
    · exact expectant_of_resumed resumed
    · split
      · exact settled _
      · exact settled _
  · exact settled _
  · exact expectant_settle resumed lexeme
  · exact expectant_settle resumed lexeme

/-- Behind any lexeme a boundary awaits a clause only where a chain may have one. -/
theorem expectant_offer (boundary : Boundary) (lexeme : Lexeme) :
    (boundary.offer lexeme).2.Expectant := by
  simp only [offer]
  split
  · split
    · split
      · exact expectant_accept rfl lexeme
      · exact expectant_of_resumed rfl
    · exact expectant_of_resumed rfl
  · next resumed => exact expectant_accept (Bool.eq_false_iff.mpr resumed) lexeme

theorem Takes.expectant (takes : boundary.Takes lexemes further)
    (expectant : boundary.Expectant) : further.Expectant := by
  induction takes with
  | nil => exact expectant
  | @cons boundary further final lexeme rest offered _ ih =>
    have behind := boundary.expectant_offer lexeme
    rw [offered] at behind
    exact ih behind

theorem offer_clause {chain : Chain} {clause : Lexeme} (awaiting : boundary.awaiting = true)
    (bears : boundary.head = .blockBearing chain) (continued : chain.continuedBy clause = true) :
    (boundary.offer clause).1 ≠ .endBefore := by
  simp only [offer, awaiting, bears, continued, ↓reduceIte]
  exact accept_ne_endBefore _ _

/-- A clause that a boundary takes where it awaits one. -/
theorem Expectant.exists_clause (expectant : boundary.Expectant)
    (awaiting : boundary.awaiting = true) :
    ∃ clause : Lexeme, (boundary.offer clause).1 ≠ .endBefore := by
  rcases expectant awaiting with bears | bears
  · exact ⟨⟨⟨.identifier, "else", .start⟩, .controlKeyword⟩, offer_clause awaiting bears rfl⟩
  · exact ⟨⟨⟨.identifier, "finally", .start⟩, .keyword⟩, offer_clause awaiting bears rfl⟩

/-! ## How a statement is completed -/

theorem Takes.extent_append (takes : boundary.Takes lexemes further) (rest : List Lexeme) :
    boundary.extent (lexemes ++ rest) = lexemes.length + further.extent rest := by
  induction takes with
  | nil => exact (Nat.zero_add _).symm
  | cons offered _ ih =>
    simp only [List.cons_append, Boundary.extent, offered, ih, List.length_cons]
    omega

/-- Where a clause is awaited behind a statement, the clause extends it. -/
theorem Takes.not_conclusive (takes : start.Takes statement further)
    (awaiting : further.awaiting = true) : ¬ Conclusive statement := by
  intro conclusive
  have resumed : start.Expectant := expectant_of_resumed rfl
  obtain ⟨clause, goesOn⟩ := (takes.expectant resumed).exists_clause awaiting
  have one : further.extent [clause] = 1 := by
    rcases offered : further.offer clause with ⟨_ | _ | _, final⟩
    · simp only [Boundary.extent, offered]
    · simp only [Boundary.extent, offered]
    · exact absurd (congrArg Prod.fst offered) goesOn
  have extended := conclusive [clause]
  rw [head?_splitStatements (by simp), takes.extent_append, one,
    List.take_of_length_le (by simp)] at extended
  simp at extended

/-- A statement is completed as far as its boundary says. -/
theorem completes_of_extent {next : Lexeme}
    (same : boundary.extent (statement ++ next :: rest) = statement.length) :
    boundary.Completes statement (next :: rest) := by
  induction statement generalizing boundary with
  | nil =>
    rcases offered : boundary.offer next with ⟨_ | _ | _, further⟩
    · simp [extent, offered] at same
    · simp [extent, offered] at same
    · exact .before rest offered
  | cons lexeme statement ih =>
    simp only [List.cons_append, extent, List.length_cons] at same
    rcases offered : boundary.offer lexeme with ⟨_ | _ | _, further⟩
    · rw [offered] at same
      exact .take offered (ih (Nat.succ.inj same))
    · rw [offered] at same
      obtain rfl := List.length_eq_zero_iff.mp (Nat.succ.inj same).symm
      exact .last _ offered
    · rw [offered] at same
      contradiction

/-- A statement is completed with its last lexeme, or while a clause is awaited behind it. -/
theorem Completes.ends (completed : boundary.Completes statement rest) :
    (∃ (front : List Lexeme) (last : Lexeme) (further final : Boundary),
      statement = front ++ [last] ∧ boundary.Takes front further ∧
        further.offer last = (.takeAndEnd, final)) ∨
    ∃ (further final : Boundary) (next : Lexeme) (more : List Lexeme), rest = next :: more ∧
      boundary.Takes statement further ∧ further.offer next = (.endBefore, final) := by
  induction completed with
  | last rest offered => exact .inl ⟨[], _, _, _, rfl, .nil _, offered⟩
  | before rest offered => exact .inr ⟨_, _, _, rest, rfl, .nil _, offered⟩
  | take offered _ ih =>
    rcases ih with ⟨front, last, further, final, rfl, takes, ended⟩ |
      ⟨further, final, next, more, rfl, takes, ended⟩
    · exact .inl ⟨_ :: front, last, further, final, rfl, .cons offered takes, ended⟩
    · exact .inr ⟨further, final, next, more, rfl, .cons offered takes, ended⟩

/-! ## Batches -/

theorem Takes.batch (takes : boundary.Takes lexemes further) (items : List Classified) :
    boundary.batch (lexemes.map .ok ++ items) =
      (lexemes.map .ok ++ (further.batch items).1, (further.batch items).2) := by
  induction takes with
  | nil => rfl
  | cons offered _ ih => simp only [List.map_cons, List.cons_append, Boundary.batch, offered, ih]

theorem batch_faults (boundary : Boundary) (faults : List ScanFault) (items : List Classified) :
    boundary.batch (faults.map .error ++ items) =
      (faults.map .error ++ (boundary.batch items).1, (boundary.batch items).2) := by
  induction faults with
  | nil => rfl
  | cons fault faults ih => simp only [List.map_cons, List.cons_append, batch, ih]

/-- The last lexeme of a statement ends its batch. -/
theorem Takes.batch_last {last : Lexeme} {final : Boundary} (takes : boundary.Takes lexemes further)
    (ended : further.offer last = (.takeAndEnd, final)) (items : List Classified) :
    boundary.batch ((lexemes ++ [last]).map .ok ++ items) =
      ((lexemes ++ [last]).map .ok, items) := by
  rw [List.map_append, List.append_assoc, takes.batch]
  simp only [List.map_cons, List.map_nil, List.singleton_append, Boundary.batch, ended]

/-- Faults in front of the lexeme that tells that a statement is complete are part of its batch. -/
theorem Takes.batch_before {next : Lexeme} {final : Boundary}
    (takes : boundary.Takes lexemes further) (ended : further.offer next = (.endBefore, final))
    (faults : List ScanFault) (rest : List Lexeme) :
    boundary.batch (lexemes.map .ok ++ (faults.map .error ++ (next :: rest).map .ok)) =
      (lexemes.map .ok ++ faults.map .error, (next :: rest).map .ok) := by
  rw [takes.batch, batch_faults]
  simp only [List.map_cons, Boundary.batch, ended, List.append_nil]

end Boundary

/-- What stands behind a statement that its last lexeme completes is not part of it. -/
theorem conclusive_of_last {front : List Lexeme} {last : Lexeme} {further final : Boundary}
    (takes : Boundary.start.Takes front further)
    (ended : further.offer last = (.takeAndEnd, final)) : Conclusive (front ++ [last]) := by
  intro rest
  have extent := (takes.completes (.last rest ended)).extent
  rw [head?_splitStatements (by simp), extent, List.take_left]

theorem nodeOf?_batch (lexemes : List Lexeme) (faults : List ScanFault) :
    nodeOf? (contentOf (lexemes.map .ok ++ faults.map .error)) =
      match faults with
      | fault :: _ => some (.error fault.inTree)
      | [] => parseStatement lexemes := by
  have lexemes' : lexemesOf (lexemes.map .ok ++ faults.map .error) = lexemes := by
    simp [lexemesOf, List.filterMap_append, List.filterMap_map, Function.comp_def, Except.toOption]
  have faults' : faultsOf (lexemes.map .ok ++ faults.map .error) = faults := by
    simp [faultsOf, List.filterMap_append, List.filterMap_map]
  rw [contentOf, lexemes', faults', nodeOf?]
  cases faults <;> rfl

/-- Of faults behind a statement, with more lexemes behind them, the first takes the place of its
tree exactly where the statement is not complete on its own. -/
theorem head?_parseItems_faults {statement behind : List Lexeme} {node : Node}
    (leads : (splitStatements (statement ++ behind)).head? = some statement)
    (more : behind ≠ []) (read : parseStatement statement = some node)
    (fault : ScanFault) (faults : List ScanFault) :
    (Conclusive statement →
      (parseItems (statement.map .ok ++ ((fault :: faults).map .error ++ behind.map .ok))).head? =
        some node) ∧
    (¬ Conclusive statement →
      (parseItems (statement.map .ok ++ ((fault :: faults).map .error ++ behind.map .ok))).head? =
        some (.error fault.inTree)) := by
  obtain ⟨next, rest, rfl⟩ := List.exists_cons_of_ne_nil more
  have extent : Boundary.start.extent (statement ++ next :: rest) = statement.length := by
    rw [head?_splitStatements (by simp)] at leads
    have taken := congrArg List.length (Option.some.inj leads)
    simp only [List.length_take, List.length_append, List.length_cons] at taken
    omega
  have nonempty : statement.map .ok ++ ((fault :: faults).map .error ++ (next :: rest).map .ok) ≠
      ([] : List Classified) := by simp
  rw [parseItems_batch nonempty]
  rcases (Boundary.completes_of_extent extent).ends with
    ⟨front, last, further, final, rfl, takes, ended⟩ |
    ⟨further, final, next', rest', same, takes, ended⟩
  · have clean := nodeOf?_batch (front ++ [last]) []
    rw [List.map_nil, List.append_nil] at clean
    rw [takes.batch_last ended, clean, read]
    exact ⟨fun _ => rfl, fun open' => absurd (conclusive_of_last takes ended) open'⟩
  · obtain ⟨rfl, rfl⟩ := List.cons.inj same
    have awaiting : further.awaiting = true := by
      by_contra resumed
      exact Boundary.offer_ne_endBefore (Bool.eq_false_iff.mpr resumed) (congrArg Prod.fst ended)
    rw [takes.batch_before ended, nodeOf?_batch]
    exact ⟨fun conclusive => absurd conclusive (takes.not_conclusive awaiting), fun _ => rfl⟩

/-- A fault behind a bare block leaves the block alone, and one behind the block of a `try` takes its
place: there a clause might still follow. -/
theorem head?_parseItems_faults_chain :
    (parse "\x7b\x7d\n@;".toList).head? = some (.block none []) ∧
      (parse "try\x7b\x7d\n@;".toList).head? =
        some (.error ⟨.scan (.unexpectedCharacter '@'), ⟨2, 1⟩⟩) := by
  have bare : Conclusive ([⟨⟨.openBrace, "\x7b", ⟨1, 1⟩⟩, .leftBrace⟩] ++
      [⟨⟨.closeBrace, "\x7d", ⟨1, 2⟩⟩, .rightBrace⟩]) :=
    conclusive_of_last (.cons rfl (.nil _)) rfl
  have chain : Boundary.start.Takes [⟨⟨.identifier, "try", ⟨1, 1⟩⟩, .keyword⟩,
      ⟨⟨.openBrace, "\x7b", ⟨1, 4⟩⟩, .leftBrace⟩, ⟨⟨.closeBrace, "\x7d", ⟨1, 5⟩⟩, .rightBrace⟩]
      ⟨.blockBearing .attempt, 0, true, false⟩ :=
    .cons rfl (.cons rfl (.cons rfl (.nil _)))
  have led : (splitStatements ([⟨⟨.identifier, "try", ⟨1, 1⟩⟩, .keyword⟩,
      ⟨⟨.openBrace, "\x7b", ⟨1, 4⟩⟩, .leftBrace⟩, ⟨⟨.closeBrace, "\x7d", ⟨1, 5⟩⟩, .rightBrace⟩] ++
      [⟨⟨.semicolon, ";", ⟨2, 2⟩⟩, .terminator⟩])).head? =
      some [⟨⟨.identifier, "try", ⟨1, 1⟩⟩, .keyword⟩,
        ⟨⟨.openBrace, "\x7b", ⟨1, 4⟩⟩, .leftBrace⟩, ⟨⟨.closeBrace, "\x7d", ⟨1, 5⟩⟩, .rightBrace⟩] :=
    head?_splitStatements (List.cons_ne_nil _ _)
  have kept : (parse "\x7b\x7d\n@;".toList).head? = some (.block none []) :=
    (head?_parseItems_faults (bare [⟨⟨.semicolon, ";", ⟨2, 2⟩⟩, .terminator⟩])
      (List.cons_ne_nil _ _) (by with_unfolding_all rfl)
      ⟨.unexpectedCharacter '@', ⟨2, 1⟩⟩ []).1 bare
  have replaced := head?_parseItems_faults led (List.cons_ne_nil _ _) (by with_unfolding_all rfl)
    ⟨.unexpectedCharacter '@', ⟨2, 1⟩⟩ []
  exact ⟨kept, replaced.2 (chain.not_conclusive rfl)⟩

end SigilScript
