import SigilScript.Program
import SigilScript.Proofs.Boundary

/-! # Collecting statements

What a collector makes of a stream of lexemes is what splitting makes of the list of them: the
first piece is what was taken before with the extent of the boundary, and the others are the
statements behind it.
-/

namespace SigilScript

/-- What the tree of a piece depends on. -/
def Piece.content (piece : Piece) : List Lexeme × Option ScanFault := (piece.lexemes, piece.fault)

/-- A piece without a fault. -/
def Piece.clean (lexemes : List Lexeme) : List Lexeme × Option ScanFault := (lexemes, none)

theorem Boundary.offer_start_ne_endBefore (lexeme : Lexeme) :
    (Boundary.start.offer lexeme).1 ≠ .endBefore :=
  accept_ne_endBefore start lexeme

theorem splitStatements_cons (lexeme : Lexeme) (rest : List Lexeme) :
    splitStatements (lexeme :: rest) =
      (lexeme :: rest).take (Boundary.start.extent (lexeme :: rest)) ::
        splitStatements ((lexeme :: rest).drop (Boundary.start.extent (lexeme :: rest))) :=
  splitStatements.eq_2 lexeme rest

namespace Collector

/-- A statement that was complete before a lexeme is a piece, and the lexeme begins the next. -/
theorem take_endBefore (collector : Collector) (lexeme : Lexeme)
    (ended : (collector.boundary.offer lexeme).1 = .endBefore) :
    collector.take lexeme =
      (collector.piece :: ((start collector.asked).take lexeme).1,
        ((start collector.asked).take lexeme).2) := by
  have began := Boundary.offer_start_ne_endBefore lexeme
  rcases offer : collector.boundary.offer lexeme with ⟨_ | _ | _, further⟩
  · rw [offer] at ended
    contradiction
  · rw [offer] at ended
    contradiction
  · simp only [take, offer, start]
    rcases first : Boundary.start.offer lexeme with ⟨_ | _ | _, boundary⟩
    · rfl
    · rfl
    · rw [first] at began
      contradiction

/-- The pieces of a stream without faults, from the start and from within a statement. -/
theorem content_pieces (lexemes : List Lexeme) :
    (∀ asked : Nat, ((start asked).pieces (lexemes.map .ok)).map Piece.content =
      (splitStatements lexemes).map Piece.clean) ∧
    ∀ (boundary : Boundary) (taken : List Lexeme) (asked : Nat), taken ≠ [] →
      (pieces ⟨boundary, taken, none, asked⟩ (lexemes.map .ok)).map Piece.content =
        Piece.clean (taken.reverse ++ lexemes.take (boundary.extent lexemes)) ::
          (splitStatements (lexemes.drop (boundary.extent lexemes))).map Piece.clean := by
  induction lexemes with
  | nil =>
    constructor
    · intro asked
      rw [splitStatements]
      rfl
    · intro boundary taken asked nonempty
      have held : taken.isEmpty = false := by
        cases taken with
        | nil => contradiction
        | cons last before => rfl
      simp only [List.map_nil, pieces, held, Bool.false_and, Bool.false_eq_true, ↓reduceIte,
        List.map_cons, Piece.content, piece, Boundary.extent, List.take_nil, List.append_nil,
        List.drop_nil, Piece.clean]
      rw [splitStatements]
      rfl
  | cons lexeme rest ih =>
    obtain ⟨ihStart, ihWithin⟩ := ih
    -- A statement that begins with this lexeme, whatever was collected before it.
    have begun (asked : Nat) : ((start asked).pieces ((lexeme :: rest).map .ok)).map
        Piece.content = (splitStatements (lexeme :: rest)).map Piece.clean := by
      have began := Boundary.offer_start_ne_endBefore lexeme
      rw [splitStatements_cons]
      simp only [List.map_cons, pieces, start, take, Boundary.extent]
      rcases offer : Boundary.start.offer lexeme with ⟨_ | _ | _, boundary⟩
      · simp only [List.nil_append, ihWithin boundary [lexeme] (asked + 1) (List.cons_ne_nil _ _),
          List.reverse_singleton, List.take_succ_cons, List.drop_succ_cons,
          List.singleton_append]
      · simp only [List.map_append, List.map_cons, List.map_nil, ← start.eq_1, ihStart]
        rfl
      · rw [offer] at began
        contradiction
    refine ⟨begun, fun boundary taken asked nonempty => ?_⟩
    rcases offer : boundary.offer lexeme with ⟨_ | _ | _, further⟩
    · simp only [List.map_cons, pieces, take, Boundary.extent, offer, List.nil_append,
        ihWithin further (lexeme :: taken) (asked + 1) (List.cons_ne_nil _ _),
        List.reverse_cons, List.append_assoc, List.take_succ_cons, List.drop_succ_cons,
        List.singleton_append]
    · simp only [List.map_cons, pieces, take, Boundary.extent, offer, List.map_append,
        List.map_nil, ihStart]
      simp only [Piece.content, piece, List.reverse_cons, Piece.clean, List.take_succ_cons,
        List.take_zero, List.drop_succ_cons, List.drop_zero, List.singleton_append]
    · have ended := take_endBefore ⟨boundary, taken, none, asked + 1⟩ lexeme (by rw [offer])
      have further := begun asked
      simp only [List.map_cons, pieces] at further ⊢
      rw [ended]
      simp only [List.cons_append, List.map_cons, Boundary.extent, offer, List.take_zero,
        List.drop_zero, List.append_nil]
      exact congrArg _ further

/-! ## Lexemes before other items -/

/-- A collector that has asked for one item more. -/
def asking (collector : Collector) : Collector := { collector with asked := collector.asked + 1 }

/-- What a collector makes of lexemes: the pieces they complete, and what goes on. -/
def collect (collector : Collector) : List Lexeme → List Piece × Collector
  | [] => ([], collector)
  | lexeme :: rest =>
    let (complete, further) := collector.asking.take lexeme
    let (more, last) := further.collect rest
    (complete ++ more, last)

theorem collect_cons (collector : Collector) (lexeme : Lexeme) (rest : List Lexeme) :
    collector.collect (lexeme :: rest) =
      ((collector.asking.take lexeme).1 ++ ((collector.asking.take lexeme).2.collect rest).1,
        ((collector.asking.take lexeme).2.collect rest).2) := rfl

theorem pieces_append (collector : Collector) (lexemes : List Lexeme) (items : List Classified) :
    collector.pieces (lexemes.map .ok ++ items) =
      (collector.collect lexemes).1 ++ (collector.collect lexemes).2.pieces items := by
  induction lexemes generalizing collector with
  | nil => rfl
  | cons lexeme rest ih =>
    rw [List.map_cons, List.cons_append, pieces, collect_cons, List.append_assoc, ← ih]
    rfl

theorem collect_append (collector : Collector) (first second : List Lexeme) :
    collector.collect (first ++ second) =
      ((collector.collect first).1 ++ ((collector.collect first).2.collect second).1,
        ((collector.collect first).2.collect second).2) := by
  induction first generalizing collector with
  | nil => rfl
  | cons lexeme rest ih =>
    simp only [List.cons_append, collect_cons, ih, List.append_assoc]

/-- A collector that has taken lexemes more and whose boundary stands here. -/
def taking (collector : Collector) (boundary : Boundary) (lexemes : List Lexeme) : Collector :=
  ⟨boundary, lexemes.reverse ++ collector.taken, collector.fault,
    collector.asked + lexemes.length⟩

@[simp] theorem boundary_taking (collector : Collector) (boundary : Boundary)
    (lexemes : List Lexeme) : (collector.taking boundary lexemes).boundary = boundary := rfl

@[simp] theorem taking_taking (collector : Collector) (boundary further : Boundary)
    (first second : List Lexeme) :
    (collector.taking boundary first).taking further second =
      collector.taking further (first ++ second) := by
  simp only [taking, List.reverse_append, List.append_assoc, List.length_append, Nat.add_assoc]

theorem collect_take {collector : Collector} {lexeme : Lexeme} {further : Boundary}
    (taken : collector.boundary.offer lexeme = (.take, further)) (rest : List Lexeme) :
    collector.collect (lexeme :: rest) = (collector.taking further [lexeme]).collect rest := by
  simp only [collect, take, asking, taken]
  rfl

/-- Lexemes that the boundary takes make no pieces. -/
theorem collect_takes {collector : Collector} {lexemes : List Lexeme} {further : Boundary}
    (takes : collector.boundary.Takes lexemes further) :
    collector.collect lexemes = ([], collector.taking further lexemes) := by
  generalize same : collector.boundary = boundary at takes
  induction takes generalizing collector with
  | nil =>
    rw [← same]
    rfl
  | @cons boundary further final lexeme rest offered _ ih =>
    rw [← same] at offered
    rw [collect_take offered, ih (boundary_taking collector further [lexeme]), taking_taking]
    rfl

theorem pieces_takes (collector : Collector) {lexemes : List Lexeme} {further : Boundary}
    (takes : collector.boundary.Takes lexemes further) (items : List Classified) :
    collector.pieces (lexemes.map .ok ++ items) =
      (collector.taking further lexemes).pieces items := by
  rw [pieces_append, collect_takes takes, List.nil_append]

/-- The last lexeme of all makes a piece of what was collected, unless the statement was complete
before. -/
theorem pieces_last (collector : Collector) {last : Lexeme}
    (goesOn : (collector.boundary.offer last).1 ≠ .endBefore) :
    ∃ asked, collector.pieces [.ok last] =
      [⟨collector.taken.reverse ++ [last], collector.fault, asked⟩] := by
  rcases offered : collector.boundary.offer last with ⟨_ | _ | _, further⟩
  · refine ⟨collector.asked + 1 + 1, ?_⟩
    simp only [pieces, take, offered, piece, List.reverse_cons]
    rfl
  · refine ⟨collector.asked + 1, ?_⟩
    simp only [pieces, take, offered, piece, List.reverse_cons]
    rfl
  · exact absurd (congrArg Prod.fst offered) goesOn

/-- Inside a group a properly nested list is taken whole. -/
theorem collect_inside (collector : Collector) (inside : collector.boundary.Inside)
    {lexemes : List Lexeme} (nested : Nested lexemes) :
    collector.collect lexemes = ([], collector.taking collector.boundary lexemes) :=
  collect_takes (inside.takes nested)

/-! ## Depth zero -/

theorem depth_take_of_offer {collector : Collector} {lexeme : Lexeme}
    (offered : (collector.boundary.offer lexeme).1 = .takeAndEnd ∨
      (collector.boundary.offer lexeme).1 = .take ∧
        (collector.boundary.offer lexeme).2.depth = 0) :
    (collector.take lexeme).2.boundary.depth = 0 := by
  rcases offer : collector.boundary.offer lexeme with ⟨_ | _ | _, further⟩ <;>
    simp only [offer, reduceCtorEq, false_and, or_self, false_or, true_and] at offered
  · simp only [take, offer]
    exact offered
  · simp only [take, offer]
    rfl

/-- At depth zero a lexeme that is no bracket leaves the boundary at depth zero. -/
theorem depth_take (collector : Collector) (flat : collector.boundary.depth = 0)
    {lexeme : Lexeme} (level : lexeme.category.delta = 0) :
    (collector.take lexeme).2.boundary.depth = 0 := by
  have even : collector.boundary.depth + lexeme.category.delta = 0 := by rw [flat, level]; rfl
  rcases Boundary.offer_even even flat with ended | offered
  · rw [take_endBefore collector lexeme ended]
    refine depth_take_of_offer ((Boundary.offer_even ?_ rfl).resolve_left
      (Boundary.offer_start_ne_endBefore lexeme))
    rw [level]
    rfl
  · exact depth_take_of_offer offered

/-- At depth zero an opener leads inside its group. -/
theorem take_opener (collector : Collector) (flat : collector.boundary.depth = 0)
    {opener : Lexeme} (opens : opener.category.isOpener = true) :
    (collector.take opener).2.boundary.Inside ∧ (collector.take opener).2.boundary.depth = 1 := by
  rcases Boundary.offer_opener opens flat with ended | ⟨inside, taken, isInside, depth⟩
  · rw [take_endBefore collector opener ended]
    obtain ⟨inside, taken, isInside, depth⟩ := (Boundary.offer_opener opens rfl).resolve_left
      (Boundary.offer_start_ne_endBefore opener)
    simp only [take, start, taken]
    exact ⟨isInside, depth⟩
  · simp only [take, taken]
    exact ⟨isInside, depth⟩

/-- A properly nested list leaves a boundary at depth zero there. -/
theorem depth_collect {collector : Collector} (flat : collector.boundary.depth = 0)
    {lexemes : List Lexeme} (nested : Nested lexemes) :
    (collector.collect lexemes).2.boundary.depth = 0 := by
  induction nested generalizing collector with
  | nil => exact flat
  | @plain lexeme rest opens closes _ ih =>
    have level : (collector.asking.take lexeme).2.boundary.depth = 0 :=
      depth_take collector.asking flat (Category.delta_plain opens closes)
    exact ih level
  | @group opener closer inner rest partner nested _ _ ih =>
    have closes := Category.isCloser_of_closer? partner
    have entered : (collector.asking.take opener).2.boundary.Inside ∧
        (collector.asking.take opener).2.boundary.depth = 1 :=
      take_opener collector.asking flat (Category.isOpener_of_closer? partner)
    obtain ⟨inside, depth⟩ := entered
    rw [collect_cons, collect_append, collect_inside _ inside nested, collect_cons]
    exact ih (depth_take_of_offer (inside.offer_outermost depth closes))

/-- At depth zero nothing is held behind a terminator. -/
theorem take_terminator (collector : Collector) (flat : collector.boundary.depth = 0)
    {lexeme : Lexeme} (ends : lexeme.category = .terminator) :
    (collector.take lexeme).2 = start collector.asked := by
  rcases offered : collector.boundary.offer lexeme with ⟨_ | _ | _, further⟩
  · have either := Boundary.offer_terminator ends flat
    rw [offered] at either
    simp at either
  · simp only [take, offered]
  · rw [take_endBefore collector lexeme (by rw [offered])]
    have first : (Boundary.start.offer lexeme).1 = .takeAndEnd :=
      (Boundary.offer_terminator ends rfl).resolve_left
        (Boundary.offer_start_ne_endBefore lexeme)
    rcases offered : Boundary.start.offer lexeme with ⟨_ | _ | _, boundary⟩
    · rw [offered] at first
      contradiction
    · simp only [take, start, offered]
    · rw [offered] at first
      contradiction

/-- A properly nested list with a terminator behind it is made into pieces without a rest. -/
theorem collect_terminated (asked : Nat) {lexemes : List Lexeme} (nested : Nested lexemes)
    {last : Lexeme} (ends : last.category = .terminator) :
    ∃ asked' : Nat, ((start asked).collect (lexemes ++ [last])).2 = start asked' := by
  have flat : ((start asked).collect lexemes).2.boundary.depth = 0 := depth_collect rfl nested
  rw [collect_append, collect_cons]
  have held : (((start asked).collect lexemes).2.asking.take last).2 =
      start ((start asked).collect lexemes).2.asking.asked :=
    take_terminator (asking _) flat ends
  exact ⟨_, held⟩

/-- What was asked for before does not change what pieces hold. -/
theorem content_pieces_asked (boundary : Boundary) (taken : List Lexeme)
    (fault : Option ScanFault) (asked asked' : Nat) (items : List Classified) :
    (pieces ⟨boundary, taken, fault, asked⟩ items).map Piece.content =
      (pieces ⟨boundary, taken, fault, asked'⟩ items).map Piece.content := by
  induction items generalizing boundary taken fault asked asked' with
  | nil =>
    simp only [pieces]
    split <;> rfl
  | cons item items ih =>
    cases item with
    | error scanned => exact ih boundary taken _ _ _
    | ok lexeme =>
      simp only [pieces, take]
      rcases boundary.offer lexeme with ⟨_ | _ | _, further⟩
      · exact ih further (lexeme :: taken) fault _ _
      · exact congrArg (_ :: ·) (ih .start [] none _ _)
      · rcases Boundary.start.offer lexeme with ⟨_ | _ | _, begun⟩
        · exact congrArg (_ :: ·) (ih begun [lexeme] none _ _)
        · exact congrArg (_ :: _ :: ·) (ih .start [] none _ _)
        · exact congrArg (_ :: _ :: ·) (ih .start [] none _ _)

end Collector

/-! ## Trees -/

/-- The tree of what a piece holds. -/
def nodeOf? (content : List Lexeme × Option ScanFault) : Option Node :=
  match content.2 with
  | some fault => some (.error fault.inTree)
  | none => parseStatement content.1

theorem parseItems_eq (items : List Classified) :
    parseItems items =
      (((Collector.start 0).pieces items).map Piece.content).filterMap nodeOf? := by
  rw [List.filterMap_map]
  rfl

/-- A stream of lexemes is parsed as the list of its statements. -/
theorem parseItems_ok (lexemes : List Lexeme) :
    parseItems (lexemes.map .ok) = (splitStatements lexemes).filterMap parseStatement := by
  rw [parseItems_eq, (Collector.content_pieces lexemes).1, List.filterMap_map]
  rfl

/-- Behind a properly nested list and a terminator, items are parsed as if they stood alone. -/
theorem parseItems_append {lexemes : List Lexeme} (nested : Nested lexemes) {last : Lexeme}
    (ends : last.category = .terminator) (items : List Classified) :
    parseItems ((lexemes ++ [last]).map .ok ++ items) =
      parseItems ((lexemes ++ [last]).map .ok) ++ parseItems items := by
  obtain ⟨asked, held⟩ := Collector.collect_terminated 0 nested ends
  have whole := Collector.pieces_append (.start 0) (lexemes ++ [last]) items
  have alone := Collector.pieces_append (.start 0) (lexemes ++ [last]) []
  have none : (Collector.start asked).pieces [] = [] := rfl
  have same : ((Collector.start asked).pieces items).map Piece.content =
      ((Collector.start 0).pieces items).map Piece.content :=
    Collector.content_pieces_asked ..
  rw [held] at whole alone
  rw [none, List.append_nil, List.append_nil] at alone
  rw [parseItems_eq, parseItems_eq, parseItems_eq items, whole, alone, List.map_append,
    List.filterMap_append, same]

end SigilScript
