import SigilScript.Proofs.Agreement
import SigilScript.Proofs.Node.Faults

/-! # The verdict of strict reading

Strict reading scans the whole text first and reads the tokens afterwards; plain reading interleaves
the two and puts a scan fault in place of the statement around it. They agree all the same: a scan
fault never vanishes while statements are collected, and the walk over a tree misses no fault.
-/

namespace SigilScript

/-! ## Scan faults are kept -/

namespace Collector

/-- A fault that was met, or is still to come, is the fault of a piece. -/
theorem exists_faulty_piece (items : List Classified) (collector : Collector)
    (faulty : collector.fault.isSome = true ∨ ∃ fault, .error fault ∈ items) :
    ∃ piece ∈ collector.pieces items, piece.fault.isSome = true := by
  induction items generalizing collector with
  | nil =>
    have met : collector.fault.isSome = true := by simpa using faulty
    have held : collector.fault.isNone = false := by simp [Option.isNone_eq_false_iff, met]
    simp only [pieces, held, Bool.and_false, Bool.false_eq_true, ↓reduceIte]
    exact ⟨_, List.mem_singleton_self _, met⟩
  | cons item items ih =>
    cases item with
    | error fault =>
      refine ih _ (.inl ?_)
      cases collector.fault <;> rfl
    | ok lexeme =>
      have further : collector.fault.isSome = true ∨ ∃ fault, .error fault ∈ items := by
        simpa using faulty
      simp only [pieces, take]
      rcases collector.boundary.offer lexeme with ⟨_ | _ | _, boundary⟩
      · exact ih _ further
      · rcases further with met | later
        · exact ⟨_, List.mem_cons_self, met⟩
        · obtain ⟨piece, member, found⟩ := ih (start _) (.inr later)
          exact ⟨piece, List.mem_cons_of_mem _ member, found⟩
      · -- The fault belongs to the statement that was complete before the lexeme.
        rcases further with met | later
        · rcases Boundary.start.offer lexeme with ⟨_ | _ | _, begun⟩ <;>
            exact ⟨_, List.mem_cons_self, met⟩
        · rcases Boundary.start.offer lexeme with ⟨_ | _ | _, begun⟩
          · obtain ⟨piece, member, found⟩ := ih ⟨begun, [lexeme], none, _⟩ (.inr later)
            exact ⟨piece, List.mem_cons_of_mem _ member, found⟩
          all_goals
            obtain ⟨piece, member, found⟩ := ih (start _) (.inr later)
            exact ⟨piece, List.mem_cons_of_mem _ (List.mem_cons_of_mem _ member), found⟩

end Collector

/-- A scan fault among the items leaves a tree that is a fault. -/
theorem exists_error_of_fault {items : List Classified} {fault : ScanFault}
    (member : .error fault ∈ items) : ∃ met, Node.error met ∈ parseItems items := by
  obtain ⟨piece, found, faulty⟩ :=
    (Collector.start 0).exists_faulty_piece items (.inr ⟨fault, member⟩)
  obtain ⟨first, holds⟩ := Option.isSome_iff_exists.mp faulty
  exact ⟨first.inTree, List.mem_filterMap.mpr ⟨piece, found, by rw [Piece.node?, holds]⟩⟩

theorem error_mem_classifyAfter {items : List Scanned} {fault : ScanFault}
    (member : .error fault ∈ items) (previous : Option Category) :
    .error fault ∈ classifyAfter previous items := by
  induction items generalizing previous with
  | nil => exact absurd member List.not_mem_nil
  | cons item items ih =>
    rcases item with first | token
    · rcases List.mem_cons.mp member with same | later
      · obtain rfl := Except.error.inj same
        exact List.mem_cons_self
      · exact List.mem_cons_of_mem _ (ih later previous)
    · have later : .error fault ∈ items := by simpa using member
      exact List.mem_cons_of_mem _ (ih later _)

/-! ## Tokens or the first fault -/

/-- Tokenizing stops at the first fault. -/
theorem mapM_id_eq_error_iff {items : List Scanned} {fault : ScanFault} :
    items.mapM id = .error fault ↔
      ∃ (tokens : List Token) (more : List Scanned),
        items = tokens.map .ok ++ .error fault :: more := by
  induction items with
  | nil => simp [pure, Except.pure]
  | cons item items ih =>
    rw [List.mapM_cons]
    rcases item with first | token
    · constructor
      · intro stopped
        obtain rfl := Except.error.inj stopped
        exact ⟨[], items, rfl⟩
      · rintro ⟨_ | ⟨token, tokens⟩, more, same⟩
        · obtain rfl := Except.error.inj (List.cons.inj same).1
          rfl
        · exact absurd (List.cons.inj same).1 (by simp)
    · have onward : ((do let token ← id (Except.ok token : Scanned)
                         let tokens ← items.mapM id
                         pure (token :: tokens)) = Except.error fault) ↔
          items.mapM id = .error fault := by
        rcases items.mapM id with stopped | tokens <;> simp [bind, Except.bind, pure, Except.pure]
      rw [onward, ih]
      constructor
      · rintro ⟨tokens, more, rfl⟩
        exact ⟨token :: tokens, more, rfl⟩
      · rintro ⟨_ | ⟨first, tokens⟩, more, same⟩
        · exact absurd (List.cons.inj same).1 (by simp)
        · exact ⟨tokens, more, (List.cons.inj same).2⟩

theorem tokenize_of_scan {text : List Char} {tokens : List Token}
    (scanned : scan text = tokens.map .ok) : tokenize text = .ok tokens := by
  rcases read : tokenize text with fault | found
  · obtain ⟨front, more, same⟩ := mapM_id_eq_error_iff.mp read
    rw [scanned] at same
    have member : (.error fault : Scanned) ∈ tokens.map .ok := by simp [same]
    simp at member
  · have same := scan_of_tokenize read
    rw [scanned] at same
    rw [List.map_injective_iff.mpr (fun _ _ => Except.ok.inj) same]

/-- A text is scanned without faults where no tree of it is one. -/
theorem tokenize_of_sound {text : List Char}
    (sound : ∀ node ∈ parse text, node.faults = []) : ∃ tokens, tokenize text = .ok tokens := by
  rcases read : tokenize text with fault | tokens
  · obtain ⟨front, more, same⟩ := mapM_id_eq_error_iff.mp read
    have member : .error fault ∈ scan text := by simp [same]
    obtain ⟨met, found⟩ := exists_error_of_fault (error_mem_classifyAfter member none)
    have none := sound _ found
    contradiction
  · exact ⟨tokens, rfl⟩

/-! ## Strict reading -/

theorem firstFault?_eq_some_iff {nodes : List Node} {fault : SyntaxFault} :
    firstFault? nodes = some fault ↔
      ∃ (front : List Node) (node : Node) (back : List Node) (later : List SyntaxFault),
        nodes = front ++ node :: back ∧ (∀ other ∈ front, other.faults = []) ∧
          node.faults = fault :: later := by
  rw [firstFault?, List.findSome?_eq_some_iff]
  constructor
  · rintro ⟨front, node, back, same, first, sound⟩
    obtain ⟨later, faults⟩ := List.head?_eq_some_iff.mp first
    exact ⟨front, node, back, later, same,
      fun other member => List.head?_eq_none_iff.mp (sound other member), faults⟩
  · rintro ⟨front, node, back, later, same, sound, faults⟩
    exact ⟨front, node, back, same, by rw [faults, List.head?_cons],
      fun other member => List.head?_eq_none_iff.mpr (sound other member)⟩

theorem parseStrict_of_scan {text : List Char} {tokens : List Token}
    (scanned : scan text = tokens.map .ok) :
    parseStrict text =
      (firstFault? (parse text)).elim (.ok (parse text)) fun fault => .error (.tree fault) := by
  simp only [parse, scanned, parseStrict, tokenize_of_scan scanned]
  rcases firstFault? (parseItems (classifyAll (tokens.map .ok))) with _ | fault <;> rfl

/-- Strict reading accepts the trees of a text where none of them holds a fault. -/
theorem parseStrict_eq_ok_iff {text : List Char} {nodes : List Node} :
    parseStrict text = .ok nodes ↔ (∀ node ∈ parse text, node.faults = []) ∧ nodes = parse text := by
  constructor
  · intro accepted
    obtain ⟨tokens, scanned, same, sound⟩ := sound_of_parseStrict accepted
    have trees : nodes = parse text := by rw [parse, scanned, classifyAll_ok, same]
    exact ⟨trees ▸ sound, trees⟩
  · rintro ⟨sound, rfl⟩
    obtain ⟨tokens, read⟩ := tokenize_of_sound sound
    have none : firstFault? (parse text) = none :=
      List.findSome?_eq_none_iff.mpr fun node member =>
        List.head?_eq_none_iff.mpr (sound node member)
    rw [parseStrict_of_scan (scan_of_tokenize read), none, Option.elim_none]

theorem exists_parseStrict_iff {text : List Char} :
    (∃ nodes, parseStrict text = .ok nodes) ↔ ∀ node ∈ parse text, node.faults = [] := by
  simp only [parseStrict_eq_ok_iff, exists_and_left, exists_eq, and_true]

/-- Strict reading accepts the trees of a text exactly where no fault stands inside any of them,
refuses a text for the first fault of its scan where it has one, and else for the first fault of the
first tree that holds any. -/
theorem parseStrict_agrees (text : List Char) :
    (∀ nodes, parseStrict text = .ok nodes ↔
      (∀ node ∈ parse text, ∀ fault, ¬ (Node.error fault).Inside node) ∧ nodes = parse text) ∧
    (∀ fault, parseStrict text = .error (.scan fault) ↔ tokenize text = .error fault) ∧
    (∀ fault, tokenize text = .error fault ↔
      ∃ (tokens : List Token) (more : List Scanned),
        scan text = tokens.map .ok ++ .error fault :: more) ∧
    (∀ fault, parseStrict text = .error (.tree fault) ↔
      (∃ tokens : List Token, scan text = tokens.map .ok) ∧
        ∃ (front : List Node) (node : Node) (back : List Node) (later : List SyntaxFault),
          parse text = front ++ node :: back ∧ (∀ other ∈ front, other.faults = []) ∧
            node.faults = fault :: later) := by
  refine ⟨fun nodes => ?_, fun fault => ?_, fun fault => mapM_id_eq_error_iff, fun fault => ?_⟩
  · rw [parseStrict_eq_ok_iff]
    simp only [← Node.faults_eq_nil_iff]
  · rcases read : tokenize text with met | tokens
    · simp only [parseStrict, read, Except.error.injEq, Refusal.scan.injEq]
    · rw [parseStrict_of_scan (scan_of_tokenize read)]
      rcases firstFault? (parse text) with _ | first <;> simp
  · rw [← firstFault?_eq_some_iff]
    constructor
    · intro refused
      rcases read : tokenize text with met | tokens
      · simp [parseStrict, read] at refused
      · have scanned := scan_of_tokenize read
        rw [parseStrict_of_scan scanned] at refused
        refine ⟨⟨tokens, scanned⟩, ?_⟩
        rcases found : firstFault? (parse text) with _ | first
        · simp [found] at refused
        · simpa [found] using refused
    · rintro ⟨⟨tokens, scanned⟩, found⟩
      rw [parseStrict_of_scan scanned, found, Option.elim_some]

end SigilScript
