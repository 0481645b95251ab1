import SigilScript.Proofs.Collector

/-! # Statements that a boundary completes

A boundary that is offered lexemes in order completes a statement with a lexeme, or before the
lexeme behind it. What stands behind the statement is offered to a new boundary, so a program is
divided into statements. A statement whose last lexeme closes a block begins with what bears a
block: where nothing at the front does, only a terminator ends it.
-/

namespace SigilScript

/-! ## Depth -/

/-- Whether lexemes that begin at this depth never leave the group around them. -/
def Level : Int → List Lexeme → Prop
  | _, [] => True
  | depth, lexeme :: rest =>
    0 ≤ depth + lexeme.category.delta ∧ Level (depth + lexeme.category.delta) rest

instance Level.decidable : (depth : Int) → (lexemes : List Lexeme) → Decidable (Level depth lexemes)
  | _, [] => .isTrue trivial
  | depth, lexeme :: rest =>
    have := Level.decidable (depth + lexeme.category.delta) rest
    inferInstanceAs (Decidable (_ ∧ _))

theorem Nested.level_append {lexemes rest : List Lexeme} (nested : Nested lexemes) {depth : Int}
    (inside : 0 ≤ depth) (level : Level depth rest) : Level depth (lexemes ++ rest) := by
  induction nested generalizing depth rest with
  | nil => exact level
  | plain opens closes _ ih =>
    rw [List.cons_append, Level, Category.delta_plain opens closes, Int.add_zero]
    exact ⟨inside, ih inside level⟩
  | @group opener closer inner behind partner _ _ ihInner ihBehind =>
    have closed : depth + 1 + closer.category.delta = depth := by
      rw [Category.delta_closer (Category.isCloser_of_closer? partner)]
      omega
    have group : Level (depth + 1) (closer :: (behind ++ rest)) := by
      rw [Level, closed]
      exact ⟨inside, ihBehind inside level⟩
    rw [List.cons_append, List.append_assoc, List.cons_append, Level,
      Category.delta_opener (Category.isOpener_of_closer? partner)]
    exact ⟨by omega, ihInner (by omega) group⟩

theorem Nested.level {lexemes : List Lexeme} (nested : Nested lexemes) : Level 0 lexemes := by
  have outside : Level 0 [] := trivial
  have level := nested.level_append (Int.le_refl 0) outside
  rwa [List.append_nil] at level

theorem Level.front {front behind : List Lexeme} {depth : Int}
    (level : Level depth (front ++ behind)) : Level depth front := by
  induction front generalizing depth with
  | nil => trivial
  | cons lexeme rest ih => exact ⟨level.1, ih level.2⟩

namespace Boundary

/-- A boundary that is offered a statement and what stands behind it completes the statement: with
its last lexeme, or before the lexeme behind it. -/
inductive Completes : Boundary → List Lexeme → List Lexeme → Prop where
  | last {boundary further : Boundary} {lexeme : Lexeme} (rest : List Lexeme) :
    boundary.offer lexeme = (.takeAndEnd, further) → Completes boundary [lexeme] rest
  | before {boundary further : Boundary} {next : Lexeme} (rest : List Lexeme) :
    boundary.offer next = (.endBefore, further) → Completes boundary [] (next :: rest)
  | take {boundary further : Boundary} {lexeme : Lexeme} {statement rest : List Lexeme} :
    boundary.offer lexeme = (.take, further) → Completes further statement rest →
      Completes boundary (lexeme :: statement) rest

end Boundary

/-- Lexemes that are complete statements, each offered to a new boundary. -/
inductive Statements : List Lexeme → List Lexeme → Prop where
  | nil (rest : List Lexeme) : Statements [] rest
  | cons {statement more rest : List Lexeme} :
    Boundary.start.Completes statement (more ++ rest) → Statements more rest →
      Statements (statement ++ more) rest

namespace Boundary

variable {boundary other further : Boundary} {lexeme : Lexeme} {statement rest : List Lexeme}

/-- A completed statement is as long as its boundary says. -/
theorem Completes.extent (completed : boundary.Completes statement rest) :
    boundary.extent (statement ++ rest) = statement.length := by
  induction completed with
  | last rest offered => simp only [List.singleton_append, Boundary.extent, offered,
      List.length_singleton]
  | before rest offered => simp only [List.nil_append, Boundary.extent, offered, List.length_nil]
  | take offered _ ih =>
    simp only [List.cons_append, Boundary.extent, offered, ih, List.length_cons]

theorem Completes.nonempty (completed : start.Completes statement rest) : statement ≠ [] := by
  rintro rfl
  cases completed with
  | before rest offered => exact accept_ne_endBefore start _ (congrArg Prod.fst offered)

/-- Boundaries that answer the first lexeme alike complete the same statements. -/
theorem Completes.congr (same : boundary.offer lexeme = other.offer lexeme)
    (completed : boundary.Completes (lexeme :: statement) rest) :
    other.Completes (lexeme :: statement) rest := by
  cases completed with
  | last rest offered => exact .last rest (same.symm.trans offered)
  | take offered completed => exact .take (same.symm.trans offered) completed

/-- A statement goes on behind a lexeme that does not end it. -/
theorem Completes.behind (completed : boundary.Completes (lexeme :: statement) rest)
    (offered : boundary.offer lexeme = (.take, further)) : further.Completes statement rest := by
  cases completed with
  | last rest ended => simp [offered] at ended
  | take taken completed =>
    rw [offered] at taken
    obtain rfl := (Prod.mk.inj taken).2
    exact completed

/-- Before a boundary that awaits nothing no statement is complete. -/
theorem Completes.cons_of_resumed (completed : boundary.Completes statement rest)
    (resumed : boundary.awaiting = false) :
    ∃ (lexeme : Lexeme) (more : List Lexeme), statement = lexeme :: more := by
  cases completed with
  | last rest _ => exact ⟨_, [], rfl⟩
  | before rest offered =>
    simp only [offer, resumed, Bool.false_eq_true, ↓reduceIte] at offered
    exact absurd (congrArg Prod.fst offered) (accept_ne_endBefore boundary _)
  | take _ _ => exact ⟨_, _, rfl⟩

/-! ## Statements without a block -/

/-- Within its group, a statement without a block is ended by a terminator and nothing else. -/
theorem settle_simple (simple : boundary.head = .simple)
    (inside : 0 ≤ boundary.depth + lexeme.category.delta) :
    (boundary.settle lexeme).1 = .takeAndEnd ∧ lexeme.category = .terminator ∨
      boundary.settle lexeme =
        (.take, { boundary with depth := boundary.depth + lexeme.category.delta }) := by
  have notLeft : ¬ boundary.depth + lexeme.category.delta < 0 := by omega
  simp only [settle, notLeft, ↓reduceIte, simple]
  split
  · exact .inr rfl
  · split
    · next ends => exact .inl ⟨rfl, ends⟩
    · contradiction
    · contradiction
    · exact .inr rfl

/-- Without a block a statement that stays within its group ends in a terminator. -/
theorem Completes.terminated (completed : boundary.Completes statement rest)
    (simple : boundary.head = .simple) (resumed : boundary.awaiting = false)
    (level : Level boundary.depth statement) :
    ∃ last : Lexeme, statement.getLast? = some last ∧ last.category = .terminator := by
  induction completed with
  | @last boundary further lexeme rest offered =>
    rw [offer_settled (by rw [simple]; rfl) resumed] at offered
    rcases settle_simple simple level.1 with ⟨-, ends⟩ | taken
    · exact ⟨lexeme, rfl, ends⟩
    · simp [offered] at taken
  | @before boundary further next rest offered =>
    rw [offer_settled (by rw [simple]; rfl) resumed] at offered
    exact absurd (congrArg Prod.fst offered) (settle_ne_endBefore boundary next)
  | @take boundary further lexeme statement rest offered completed ih =>
    rw [offer_settled (by rw [simple]; rfl) resumed] at offered
    rcases settle_simple simple level.1 with ⟨ended, -⟩ | taken
    · simp [offered] at ended
    · rw [offered] at taken
      obtain rfl := (Prod.mk.inj taken).2
      obtain ⟨last, ends, role⟩ := ih simple resumed level.2
      refine ⟨last, ?_, role⟩
      rw [List.getLast?_cons, ends]
      rfl

end Boundary

/-! ## Statements with a block -/

/-- Whether a statement that begins like this may end where its block closes. -/
inductive BearsBlock (head : Lexeme) (rest : List Lexeme) : Prop where
  | control (role : head.category = .controlKeyword) : BearsBlock head rest
  | bare (role : head.category = .leftBrace) : BearsBlock head rest
  | reserved (role : head.category = .keyword)
    (spelled : head.text ∈ ["try", "catch", "finally", "class", "package", "method", "given",
      "when", "default", "match", "case"]) : BearsBlock head rest
  | named (role : head.category = .keyword) (spelled : head.text = "sub")
    (name : rest.head?.any Lexeme.isWord = true) : BearsBlock head rest
  | phase (role : head.category = .identifier)
    (spelled : (head.text = "BEGIN" || head.text = "END") = true)
    (block : nextIs .leftBrace rest = true) : BearsBlock head rest

/-- What stands behind the label of a statement, if it has one. -/
def unlabelled : List Lexeme → List Lexeme
  | label :: colon :: rest =>
    if label.category = .identifier ∧ colon.category = .colon then rest else label :: colon :: rest
  | lexemes => lexemes

/-- Whether the last of several lexemes is no terminator. -/
def Unterminated (lexemes : List Lexeme) : Prop :=
  ∀ last, lexemes.getLast? = some last → last.category ≠ .terminator

theorem Unterminated.tail {lexeme next : Lexeme} {rest : List Lexeme}
    (unterminated : Unterminated (lexeme :: next :: rest)) : Unterminated (next :: rest) := by
  intro last ends
  apply unterminated last
  rwa [List.getLast?_cons_cons]

theorem Lexeme.head_cases (head : Lexeme) :
    head.head = .simple ∨ (∀ rest, BearsBlock head rest) ∨
      head.category = .identifier ∧
        head.head = .word (head.text = "BEGIN" || head.text = "END") ∨
      head.category = .keyword ∧ head.text = "sub" ∧ head.head = .sub := by
  simp only [Lexeme.head]
  split
  · next role => exact .inr (.inl fun _ => .control role)
  · next role => exact .inr (.inl fun _ => .bare role)
  · next role =>
    split
    · next spelled => exact .inr (.inl fun _ => .reserved role (List.mem_append_left
        ["class", "package", "method", "given", "when", "default", "match", "case"] spelled))
    · split
      · next spelled => exact .inr (.inr (.inr ⟨role, spelled, rfl⟩))
      · split
        · next spelled =>
          exact .inr (.inl fun _ => .reserved role (List.mem_append_right
            ["try", "catch", "finally"] spelled))
        · exact .inl rfl
  · next role => exact .inr (.inr (.inl ⟨role, rfl⟩))
  · exact .inl rfl

namespace Boundary

variable {boundary further : Boundary} {head : Lexeme} {tail rest : List Lexeme}

/-- A statement that ends in no terminator does not have a head that asks for one. -/
theorem Completes.not_simple (completed : boundary.Completes (head :: tail) rest)
    (level : Level 0 (head :: tail)) (unterminated : Unterminated (head :: tail))
    (same : boundary.offer head = offer ⟨.simple, 0, false, false⟩ head) : False := by
  obtain ⟨last, ends, role⟩ := (completed.congr same).terminated rfl rfl level
  exact unterminated last ends role

/-- A head that is not decided yet leads to a further lexeme. -/
theorem Completes.second (completed : start.Completes (head :: tail) rest)
    (level : Level 0 (head :: tail)) (unterminated : Unterminated (head :: tail))
    (offered : start.offer head = (.take, further)) (flat : head.category.delta = 0)
    (resumed : further.awaiting = false) :
    ∃ (next : Lexeme) (more : List Lexeme), tail = next :: more ∧
      further.Completes (next :: more) rest ∧ Level 0 (next :: more) ∧
        Unterminated (next :: more) := by
  have behind := completed.behind offered
  obtain ⟨next, more, rfl⟩ := behind.cons_of_resumed resumed
  have inside := level.2
  rw [flat] at inside
  exact ⟨next, more, rfl, behind, inside, unterminated.tail⟩

/-- A statement that ends in no terminator begins with what bears a block, or with a label. -/
theorem Completes.bears (completed : start.Completes (head :: tail) rest)
    (level : Level 0 (head :: tail)) (unterminated : Unterminated (head :: tail)) :
    BearsBlock head tail ∨ head.category = .identifier ∧ ∃ (colon : Lexeme) (more : List Lexeme),
      tail = colon :: more ∧ colon.category = .colon ∧ start.Completes more rest := by
  rcases head.head_cases with simple | bears | ⟨role, word⟩ | ⟨role, spelled, sub⟩
  · have same : start.offer head = offer ⟨.simple, 0, false, false⟩ head := by
      simp [offer, accept, start, simple]
    exact (completed.not_simple level unterminated same).elim
  · exact .inl (bears tail)
  · have flat : head.category.delta = 0 := by
      rw [role]
      rfl
    have offered : start.offer head =
        (.take, ⟨.word (head.text = "BEGIN" || head.text = "END"), 0, false, false⟩) := by
      simp [offer, accept, start, settle, word, role, Category.delta, Category.isOpener,
        Category.isCloser]
    obtain ⟨next, more, rfl, behind, level, unterminated⟩ :=
      completed.second level unterminated offered flat rfl
    by_cases colon : next.category = .colon
    · have restarted : offer ⟨.word (head.text = "BEGIN" || head.text = "END"), 0, false, false⟩
          next = (.take, start) := by
        simp [offer, accept, start, colon]
      exact .inr ⟨role, next, more, rfl, colon, behind.behind restarted⟩
    · by_cases phase : ((head.text = "BEGIN" || head.text = "END") &&
          next.category = .leftBrace) = true
      · rw [Bool.and_eq_true] at phase
        exact .inl (.phase role phase.1 phase.2)
      · have same : offer ⟨.word (head.text = "BEGIN" || head.text = "END"), 0, false, false⟩
            next = offer ⟨.simple, 0, false, false⟩ next := by
          simp only [offer, accept, colon, phase, Bool.false_eq_true, ↓reduceIte]
        exact (behind.not_simple level unterminated same).elim
  · have flat : head.category.delta = 0 := by
      rw [role]
      rfl
    have offered : start.offer head = (.take, ⟨.sub, 0, false, false⟩) := by
      simp [offer, accept, start, settle, sub, role, Category.delta, Category.isOpener,
        Category.isCloser]
    obtain ⟨next, more, rfl, behind, level, unterminated⟩ :=
      completed.second level unterminated offered flat rfl
    by_cases name : next.isWord = true
    · exact .inl (.named role spelled name)
    · have same : offer ⟨.sub, 0, false, false⟩ next = offer ⟨.simple, 0, false, false⟩ next := by
        simp only [offer, accept, name, Bool.false_eq_true, ↓reduceIte]
      exact (behind.not_simple level unterminated same).elim

end Boundary

/-! ## Programs -/

/-- The first statement of a program that begins with a complete one. -/
theorem splitStatements_completed {statement rest : List Lexeme}
    (completed : Boundary.start.Completes statement rest) :
    splitStatements (statement ++ rest) = statement :: splitStatements rest := by
  obtain ⟨lexeme, more, rfl⟩ := List.exists_cons_of_ne_nil completed.nonempty
  have extent := completed.extent
  rw [List.cons_append] at extent ⊢
  rw [splitStatements_cons, extent, ← List.cons_append, List.take_left, List.drop_left]

/-- A complete statement behind others is one of those that the program is divided into. -/
theorem Statements.mem_splitStatements {done statement rest : List Lexeme}
    (divided : Statements done (statement ++ rest))
    (completed : Boundary.start.Completes statement rest) :
    statement ∈ splitStatements (done ++ (statement ++ rest)) := by
  generalize same : statement ++ rest = following at divided
  induction divided with
  | nil =>
    rw [List.nil_append, ← same, splitStatements_completed completed]
    exact List.mem_cons_self ..
  | cons begun _ ih =>
    rw [List.append_assoc, splitStatements_completed begun]
    exact List.mem_cons_of_mem _ (ih same)

end SigilScript
