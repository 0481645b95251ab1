import SigilScript.Proofs.Grammar.Operand
import SigilScript.Proofs.Grammar.StatementShape

/-! # Statements that are chains

A statement whose tree is a chain is an expression, with a label or without, and with the sign of a
division behind it the chain becomes the left side of the division.
-/

namespace SigilScript

/-- A label is kept by blocks and loops only. -/
theorem Node.labelled_chained {node : Node} {label : String}
    (chained : (node.labelled label).isChained = true) : node.labelled label = node := by
  cases node <;> first | rfl | contradiction

namespace Grammar

variable {g : Grammar} {head sign divisor : Lexeme} {rest behind : List Lexeme} {node : Node}
  {sigil : Sigil}

theorem foldDeclaration_chained (chained : (foldDeclaration node).isChained = true) :
    foldDeclaration node = node := by
  simp only [foldDeclaration] at chained ⊢
  split at chained
  · contradiction
  · rfl

theorem modified_unchained (keyword : String) (condition : Node) (body : List Node) :
    (modified keyword condition body).isChained = false := by
  simp only [modified]
  split <;> rfl

/-! ## Statements with a head of their own -/

theorem readFor_unchained (keyword : Lexeme) (rest : List Lexeme) :
    (g.readFor keyword rest).1.isChained = false := by
  rw [readFor_eq]
  dsimp only
  split
  · rfl
  · split
    · split <;> rfl
    · rfl

theorem readControl_unchained (keyword : Lexeme) (rest : List Lexeme) :
    (g.readControl keyword rest).isChained = false := by
  simp only [readControl]
  split
  · exact finish_unchained rfl _
  · exact finish_unchained rfl _
  · exact finish_unchained rfl _
  · exact finish_unchained rfl _
  · exact finish_unchained (readFor_unchained keyword rest) _
  · exact finish_unchained (readFor_unchained keyword rest) _
  · rfl

theorem unchained_of_readName {wanted : Construct} {anchor : Position}
    (refused : readName wanted anchor rest = .error node) : node.isChained = false := by
  rcases rest with _ | ⟨word, rest⟩
  · cases refused
    rfl
  · simp only [readName] at refused
    split at refused
    · contradiction
    · cases refused
      rfl

theorem readNamedSub_unchained (keyword : Lexeme) (rest : List Lexeme) :
    (g.readNamedSub keyword rest).1.isChained = false := by
  simp only [readNamedSub]
  split
  · next refused => exact unchained_of_readName refused
  · rfl

theorem readClass_unchained (keyword : Lexeme) (rest : List Lexeme) :
    (g.readClass keyword rest).1.isChained = false := by
  simp only [readClass]
  split
  · next refused => exact unchained_of_readName refused
  · rfl

theorem readMethodDecl_unchained (keyword : Lexeme) (rest : List Lexeme) :
    (g.readMethodDecl keyword rest).1.isChained = false := by
  simp only [readMethodDecl]
  split
  · next refused => exact unchained_of_readName refused
  · rfl

theorem readPackage_unchained (keyword : Lexeme) (rest : List Lexeme) :
    (g.readPackage keyword rest).1.isChained = false := by
  simp only [readPackage]
  split
  · next refused => exact unchained_of_readName refused
  · rfl

theorem readField_unchained (keyword : Lexeme) (rest : List Lexeme) :
    (g.readField keyword rest).1.isChained = false := by
  simp only [readField]
  split <;> rfl

theorem readUse_unchained (negated : Bool) (keyword : Lexeme) (rest : List Lexeme) :
    (g.readUse negated keyword rest).1.isChained = false := by
  simp only [readUse]
  split
  · rfl
  · split
    · next refused => exact unchained_of_readName refused
    · rfl

/-- A reserved word begins a statement of its own, or else an expression, whatever stands behind. -/
theorem readReserved_cases (head : Lexeme) (rest : List Lexeme) :
    (g.readReserved head rest).isChained = false ∨
      head.text ∉ ["try", "catch", "finally", "class", "package", "method", "given", "when",
        "default", "match", "case"] ∧
      ¬ (head.text = "sub" ∧ rest.head?.any Lexeme.isWord = true) ∧
      ∀ behind, behind.head?.any Lexeme.isWord = false →
        g.readReserved head (rest ++ behind) =
          g.readWhole head.position (head :: (rest ++ behind)) := by
  unfold readReserved
  split
  · by_cases name : rest.head?.any Lexeme.isWord = true
    · rw [if_pos name]
      exact .inl (finish_unchained (readNamedSub_unchained head rest) _)
    · refine .inr ⟨by simp [*], by simp [name], fun behind noWord => if_neg ?_⟩
      rw [Bool.not_eq_true] at name ⊢
      cases rest with
      | nil => exact noWord
      | cons next rest => exact name
  · exact .inl (finish_unchained (readClass_unchained head rest) _)
  · exact .inl (finish_unchained (readField_unchained head rest) _)
  · exact .inl (finish_unchained (readMethodDecl_unchained head rest) _)
  · exact .inl (finish_unchained (readPackage_unchained head rest) _)
  · exact .inl (finish_unchained (readUse_unchained false head rest) _)
  · exact .inl (finish_unchained (readUse_unchained true head rest) _)
  · exact .inl (finish_unchained rfl _)
  · exact .inl rfl
  · exact .inl rfl
  · exact .inl (finish_unchained rfl _)
  · exact .inl (finish_unchained rfl _)
  · exact .inl (finish_unchained rfl _)
  · exact .inl (finish_unchained rfl _)
  · exact .inl (finish_unchained rfl _)
  · exact .inr ⟨by simp_all, by simp_all, fun behind noWord => rfl⟩

/-- A statement is unchained if it begins with what bears a block, and otherwise an expression,
whatever stands behind. -/
theorem readSimple_cases (head : Lexeme) (rest : List Lexeme) :
    (g.readSimple head rest).isChained = false ∨
      ¬ BearsBlock head rest ∧
      ∀ behind, behind.head?.any Lexeme.isWord = false → nextIs .leftBrace behind = false →
        g.readSimple head (rest ++ behind) =
            g.readWhole head.position (head :: (rest ++ behind)) ∨
          g.readSimple head (rest ++ behind) =
            foldDeclaration (g.readWhole head.position (head :: (rest ++ behind))) := by
  simp only [readSimple]
  split
  · exact .inl (readControl_unchained head rest)
  · next role =>
    rcases g.readReserved_cases head rest with unchained | ⟨unlisted, noName, reads⟩
    · exact .inl unchained
    · refine .inr ⟨fun bears => ?_, fun behind noWord _ => .inl (reads behind noWord)⟩
      cases bears <;> simp_all
  · exact .inl (finish_unchained rfl _)
  · next role =>
    by_cases phase : ((head.text = "BEGIN" || head.text = "END") && nextIs .leftBrace rest) = true
    · rw [if_pos phase]
      exact .inl (finish_unchained rfl _)
    · refine .inr ⟨fun bears => ?_, fun behind _ noBrace => .inl (if_neg ?_)⟩
      · cases bears <;> simp_all
      · cases rest with
        | nil => simp [noBrace]
        | cons next rest => exact phase
  · next role =>
    refine .inr ⟨fun bears => ?_, fun behind _ _ => .inr rfl⟩
    cases bears <;> simp_all
  · refine .inr ⟨fun bears => ?_, fun behind _ _ => .inl rfl⟩
    cases bears <;> simp_all

theorem readModified_bears (bears : BearsBlock head rest) :
    (g.readModified head rest).isChained = false := by
  have simple : (g.readSimple head rest).isChained = false :=
    (g.readSimple_cases head rest).resolve_right fun other => other.1 bears
  simp only [readModified]
  split
  · exact simple
  · split
    · exact modified_unchained _ _ _
    · exact simple

/-- A second label is an expression that is not one, unless a modifier stands behind it. -/
theorem readModified_label {colon : Lexeme} (word : head.isWord = true)
    (name : head.category = .identifier) (separates : colon.category = .colon)
    (sound : (full.readModified head (colon :: rest)).faults = []) :
    (full.readModified head (colon :: rest)).isChained = false := by
  have noControl : ¬ head.category = .controlKeyword := by
    rw [name]
    decide
  simp only [readModified, if_neg noControl] at sound ⊢
  split at sound
  · exact modified_unchained _ _ _
  · exact absurd sound (readSimple_label word name separates)

/-! ## Expressions -/

/-- What is sought and stands nowhere is not found behind more lexemes either. -/
theorem cutAtTopLevel?_append {wanted : Lexeme → Bool} {depth : Nat} {lexemes : List Lexeme}
    (nowhere : cutAtTopLevel? wanted depth lexemes = none)
    (unwanted : ∀ lexeme ∈ behind, wanted lexeme = false) :
    cutAtTopLevel? wanted depth (lexemes ++ behind) = none := by
  induction lexemes generalizing depth with
  | nil => exact cutAtTopLevel?_eq_none unwanted depth
  | cons lexeme rest ih =>
    simp only [List.cons_append, cutAtTopLevel?] at nowhere ⊢
    by_cases found : depth = 0 ∧ wanted lexeme = true
    · rw [if_pos found] at nowhere
      contradiction
    · rw [if_neg found] at nowhere ⊢
      split at nowhere
      · rfl
      · rw [ih (Option.map_eq_none_iff.mp nowhere), Option.map_none]

/-- What is known of lexemes that are read as a chain: they are one whole, and a division behind
them has the chain on its left. -/
structure Divisible (g : Grammar) (read : List Lexeme → Node) (head : Lexeme) (rest : List Lexeme) :
    Prop where
  whole : g.readWhole head.position (head :: rest) = read rest
  divided : ∀ {sigil : Sigil} {sign divisor : Lexeme}, IsDivision sigil sign divisor →
    read (rest ++ [sign, divisor]) = .binaryOp "/" (read rest) (.ofSpelling sigil divisor.text)

/-- A statement without label and modifier that is a chain. -/
theorem readSimple_divisible
    (classified : ∀ other ∈ head :: rest, ∃ previous, other = other.token.classify previous)
    (chained : (full.readSimple head rest).isChained = true)
    (sound : (full.readSimple head rest).faults = []) :
    full.Divisible (full.readSimple head) head rest := by
  rcases full.readSimple_cases head rest with unchained | ⟨-, reads⟩
  · rw [chained] at unchained
    contradiction
  · have whole : full.readWhole head.position (head :: rest) = full.readSimple head rest := by
      have alone := reads [] rfl rfl
      rw [List.append_nil] at alone
      rcases alone with same | same
      · exact same.symm
      · rw [same] at chained
        exact (same.trans (foldDeclaration_chained chained)).symm
    refine ⟨whole, fun {sigil sign divisor} division => ?_⟩
    rw [← whole] at chained sound ⊢
    have divided := whole_divided classified chained sound division
    have noBrace : nextIs .leftBrace [sign, divisor] = false := by
      simp [nextIs, division.role]
    rw [List.cons_append] at divided
    rcases reads [sign, divisor] division.plain noBrace with same | same
    · rw [same, divided]
    · rw [same, divided]
      rfl

/-- A statement without label that is a chain. -/
theorem readModified_divisible
    (classified : ∀ other ∈ head :: rest, ∃ previous, other = other.token.classify previous)
    (chained : (full.readModified head rest).isChained = true)
    (sound : (full.readModified head rest).faults = []) :
    full.Divisible (full.readModified head) head rest := by
  have unmodified (behind : List Lexeme)
      (plain : ∀ lexeme ∈ behind, lexeme.isModifier = false) :
      full.readModified head (rest ++ behind) = full.readSimple head (rest ++ behind) := by
    by_cases control : head.category = .controlKeyword
    · simp only [readModified, if_pos control]
    · have first : head.isModifier = false := by simp [Lexeme.isModifier, control]
      have nowhere : cutAtTopLevel? Lexeme.isModifier 0 (head :: rest) = none := by
        rcases found : cutAtTopLevel? Lexeme.isModifier 0 (head :: rest) with
          _ | ⟨_ | ⟨first, before⟩, keyword, after⟩
        · rfl
        · simp only [cutAtTopLevel?, first, Bool.false_eq_true, and_false, ↓reduceIte] at found
          split at found
          · contradiction
          · obtain ⟨cut, -, same⟩ := Option.map_eq_some_iff.mp found
            cases same
        · simp only [readModified, if_neg control, found, modified_unchained] at chained
          contradiction
      have further := cutAtTopLevel?_append nowhere plain
      rw [List.cons_append] at further
      simp only [readModified, if_neg control, further]
  have alone := unmodified [] (by simp)
  rw [List.append_nil] at alone
  rw [alone] at chained sound
  obtain ⟨whole, divided⟩ := readSimple_divisible classified chained sound
  refine ⟨whole.trans alone.symm, fun {sigil sign divisor} division => ?_⟩
  rw [alone, ← divided division]
  exact unmodified _ (by simp [Lexeme.isModifier, division.role, division.var])

theorem withoutTerminator_concat {lexemes : List Lexeme} {last : Lexeme}
    (ends : last.category = .terminator) : withoutTerminator (lexemes ++ [last]) = lexemes := by
  simp [withoutTerminator, ends]

/-- A statement that is a chain is a whole behind its label, and with a division behind it that
division. -/
theorem readStatement_divided {lexemes : List Lexeme} {last : Lexeme}
    (ends : last.category = .terminator)
    (classified : ∀ other ∈ lexemes, ∃ previous, other = other.token.classify previous)
    (read : full.readStatement (lexemes ++ [last]) = some node) (chained : node.isChained = true)
    (sound : node.faults = []) :
    (∃ front head rest, lexemes = front ++ head :: rest ∧
      full.readWhole head.position (head :: rest) = node) ∧
    ∀ {sigil : Sigil} {sign divisor last' : Lexeme}, IsDivision sigil sign divisor →
      last'.category = .terminator → full.readStatement (lexemes ++ [sign, divisor] ++ [last']) =
        some (.binaryOp "/" node (.ofSpelling sigil divisor.text)) := by
  simp only [readStatement, withoutTerminator_concat ends] at read
  rcases lexemes with _ | ⟨head, _ | ⟨colon, rest⟩⟩
  · contradiction
  · obtain rfl := Option.some.inj read
    obtain ⟨whole, divided⟩ := readModified_divisible classified chained sound
    refine ⟨⟨[], head, [], rfl, whole⟩, fun {sigil sign divisor last'} division ends' => ?_⟩
    have noLabel : ¬ (head.category = .identifier ∧ sign.category = .colon) := by
      simp [division.role]
    simp only [readStatement, withoutTerminator_concat ends']
    exact (if_neg noLabel).trans (congrArg some (divided division))
  · by_cases label : head.category = .identifier ∧ colon.category = .colon
    · rcases rest with _ | ⟨first, rest⟩
      · simp only [if_pos label] at read
        obtain rfl := Option.some.inj read
        contradiction
      · simp only [if_pos label] at read
        obtain rfl := Option.some.inj read
        have same := Node.labelled_chained chained
        rw [same] at chained sound ⊢
        have behind := fun other member =>
          classified other (List.mem_cons_of_mem _ (List.mem_cons_of_mem _ member))
        obtain ⟨whole, divided⟩ := readModified_divisible behind chained sound
        refine ⟨⟨[head, colon], first, rest, rfl, whole⟩,
          fun {sigil sign divisor last'} division ends' => ?_⟩
        simp only [readStatement, withoutTerminator_concat ends']
        simp only [List.cons_append, if_pos label]
        rw [divided division]
        rfl
    · simp only [if_neg label] at read
      obtain rfl := Option.some.inj read
      obtain ⟨whole, divided⟩ := readModified_divisible classified chained sound
      refine ⟨⟨[], head, colon :: rest, rfl, whole⟩,
        fun {sigil sign divisor last'} division ends' => ?_⟩
      simp only [readStatement, withoutTerminator_concat ends']
      exact (if_neg label).trans (congrArg some (divided division))

end Grammar

end SigilScript
