import SigilScript.Proofs.Grammar.Operand
import SigilScript.Proofs.Layout.Expression
import SigilScript.Proofs.Node.Faults

/-! # Reading up to a comma

Only the operands that take a list of their own take a comma. So an expression without faults that
leaves a comma and all that stands behind it is read the same where nothing stands behind: each
production reads in front of the comma what it reads at the end. One production looks at the comma
without taking it: a name before a fat comma is a string. So no name stands right before one here,
unless it is the name of a method.
-/

namespace SigilScript

/-- Lexemes that begin with a comma. -/
inductive AtComma : List Lexeme → Prop where
  | comma {comma : Lexeme} (role : comma.category = .comma)
    (kind : comma.token.kind = .comma ∨ comma.token.kind = .fatComma) (rest : List Lexeme) :
    AtComma (comma :: rest)

/-- Whether a lexeme plays the role of a name, of a builtin or of anything else. -/
def Lexeme.IsName (lexeme : Lexeme) : Prop :=
  lexeme.category = .identifier ∨ lexeme.category = .builtin

/-- Lexemes that do not end in a name that a fat comma behind it would make a string. -/
def Unquoted (lexemes : List Lexeme) : Prop :=
  ∀ front word, lexemes = front ++ [word] → word.IsName →
    ∃ arrow ∈ front.getLast?, arrow.category = .arrow

/-- Lexemes that end in no name if a fat comma stands behind them. -/
def Quiet (behind lexemes : List Lexeme) : Prop :=
  behind.head?.any Lexeme.isFatComma = true → Unquoted lexemes

/-- Where one reading without faults leaves what stands behind, it is the other one, which is of
what stands in front of that. -/
def Parse.Alone {α : Type} (faults : α → List SyntaxFault) (behind : List Lexeme)
    (parse further : Parse α) : Prop :=
  faults further.1 = [] → behind <:+ further.2 → further = parse.before behind

variable {rest behind : List Lexeme}

@[simp] theorem Parse.before_fst {α : Type} (parse : Parse α) : (parse.before behind).1 = parse.1 :=
  rfl

@[simp] theorem Parse.before_snd {α : Type} (parse : Parse α) :
    (parse.before behind).2 = parse.2 ++ behind :=
  rfl

/-- A tree that keeps the faults of what it is made of leaves what that leaves. -/
theorem Parse.Alone.map {α : Type} {faults : α → List SyntaxFault} {parse further : Parse α}
    (alone : parse.Alone faults behind further) (wrap : α → Node)
    (kept : ∀ value, (wrap value).faults = [] → faults value = []) :
    Parse.Alone Node.faults behind (wrap parse.1, parse.2) (wrap further.1, further.2) := by
  intro sound halts
  rw [alone (kept _ sound) halts]
  rfl

theorem AtComma.nextIs (ends : AtComma behind) {category : Category} (other : category ≠ .comma) :
    nextIs category behind = false := by
  cases ends with
  | comma role => simp [SigilScript.nextIs, role, other.symm]

theorem AtComma.ne_nil (ends : AtComma behind) : behind ≠ [] := by
  cases ends
  exact List.cons_ne_nil _ _

theorem nextIs_append_of_ne {category : Category} (ends : AtComma behind)
    (other : category ≠ .comma) :
    SigilScript.nextIs category (rest ++ behind) = SigilScript.nextIs category rest := by
  rcases rest with _ | ⟨next, rest⟩
  · exact ends.nextIs other
  · rfl

/-- A list does not end in a longer one. -/
theorem not_cons_suffix {lexeme : Lexeme} : ¬ lexeme :: rest <:+ rest :=
  fun suffix => absurd suffix.length_le (by simp)

theorem AtComma.nextIs_comma (ends : AtComma behind) :
    SigilScript.nextIs .comma behind = true := by
  cases ends with
  | comma role => simp [SigilScript.nextIs, role]

/-- Nothing of the commas is left where they are skipped. -/
theorem AtComma.not_suffix_dropWhile (ends : AtComma behind) :
    ¬ behind <:+ behind.dropWhile fun next => next.category = .comma := by
  cases ends with
  | comma role =>
    rw [List.dropWhile_cons_of_pos (by simpa using role)]
    exact fun suffix => not_cons_suffix (suffix.trans (List.dropWhile_suffix _))

/-- What stands behind a lexeme that is no arrow ends as the whole does. -/
theorem Unquoted.after {lexemes : List Lexeme} {next : Lexeme} (unquoted : Unquoted lexemes)
    (within : next :: rest <:+ lexemes) (plain : next.category ≠ .arrow) : Unquoted rest := by
  obtain ⟨before, rfl⟩ := within
  rintro front word rfl names
  obtain ⟨arrow, last, role⟩ := unquoted (before ++ next :: front) word (by simp) names
  rcases front with _ | ⟨first, front⟩
  · simp only [List.getLast?_concat, Option.mem_some_iff] at last
    exact absurd (last ▸ role) plain
  · exact ⟨arrow, by simpa using last, role⟩

theorem Quiet.after {lexemes : List Lexeme} {next : Lexeme} (quiet : Quiet behind lexemes)
    (within : next :: rest <:+ lexemes) (plain : next.category ≠ .arrow) : Quiet behind rest :=
  fun fat => (quiet fat).after within plain

theorem Quiet.tail {next : Lexeme} (quiet : Quiet behind (next :: rest))
    (plain : next.category ≠ .arrow) : Quiet behind rest :=
  quiet.after (List.suffix_refl _) plain

/-- Behind commas the list ends as the whole does. -/
theorem Quiet.afterCommas {lexemes : List Lexeme} (quiet : Quiet behind lexemes)
    (within : rest <:+ lexemes) (comma : SigilScript.nextIs .comma rest = true) :
    Quiet behind (rest.dropWhile fun next => next.category = .comma) := by
  induction rest with
  | nil => contradiction
  | cons first rest ih =>
    have role : first.category = .comma := by simpa [SigilScript.nextIs] using comma
    rw [List.dropWhile_cons_of_pos (by simpa using role)]
    by_cases further : SigilScript.nextIs .comma rest = true
    · exact ih ((List.suffix_cons ..).trans within) further
    · have rested : rest.dropWhile (fun next => next.category = .comma) = rest := by
        rcases rest with _ | ⟨next, rest⟩
        · rfl
        · exact List.dropWhile_cons_of_neg (by simpa [SigilScript.nextIs] using further)
      rw [rested]
      exact quiet.after within (by simp [role])

/-- Behind a lexeme that is no name the list ends as the whole does. -/
theorem Quiet.tail_of_plain {before next : Lexeme} (quiet : Quiet behind (before :: next :: rest))
    (plain : ¬ next.IsName) : Quiet behind (next :: rest) := by
  intro fat front word same names
  rcases front with _ | ⟨first, front⟩
  · obtain ⟨rfl, -⟩ := List.cons.inj same
    exact absurd names plain
  · obtain ⟨arrow, last, role⟩ :=
      quiet fat (before :: first :: front) word (by rw [same]; rfl) names
    exact ⟨arrow, by simpa using last, role⟩

/-- A fat comma is not behind a name alone. -/
theorem Quiet.noFatComma {name : Lexeme} (quiet : Quiet behind [name]) (names : name.IsName) :
    behind.head?.any Lexeme.isFatComma = false := by
  rw [Bool.eq_false_iff]
  intro fat
  obtain ⟨arrow, last, -⟩ := quiet fat [] name rfl names
  simp at last

theorem Quiet.nil : Quiet behind [] := by
  intro _ front word same
  simp at same

/-- Behind a group the list ends as the whole does. -/
theorem Quiet.afterGroup {opener : Lexeme} (quiet : Quiet behind (opener :: rest))
    (plain : opener.category ≠ .arrow) : Quiet behind (takeGroup opener rest).2 := by
  rcases taken : takeGroup opener rest with ⟨fault | inner, left⟩
  · rcases (takeGroup_uncut taken).2 with ⟨-, rfl⟩ | ⟨-, -, -, rfl⟩
    · exact quiet.tail plain
    · exact .nil
  · obtain ⟨closer, partner, rfl⟩ := takeGroup_ok taken
    have within : closer :: left <:+ opener :: (inner ++ closer :: left) :=
      List.suffix_append (opener :: inner) _
    refine quiet.after within fun points => ?_
    have closes := Category.isCloser_of_closer? partner
    rw [points] at closes
    contradiction

/-! ## Searches -/

/-- A group that leaves what stands behind has its end in front of it. -/
theorem takeGroup_front {opener : Lexeme} {inner left : List Lexeme}
    (taken : takeGroup opener (rest ++ behind) = (.ok inner, left)) (halts : behind <:+ left) :
    ∃ after, left = after ++ behind ∧ takeGroup opener rest = (.ok inner, after) := by
  obtain ⟨closer, found, partner, cut⟩ := takeGroup_cut taken
  obtain ⟨after, same, alone⟩ := (isSearch_cutAtPartner? opener.category closer).front 1 cut halts
  exact ⟨after, same, takeGroup_of_cut partner alone⟩

/-! ## Reading without the grammar -/

theorem readGroup_snd {α : Type} (opener : Lexeme) (rest : List Lexeme)
    (inside : List Lexeme → α) (unclosed : SyntaxFault → α) :
    (readGroup opener rest inside unclosed).2 = (takeGroup opener rest).2 := by
  simp only [readGroup]
  split <;> simp [*]

theorem readGroup_alone {α : Type} {faults : α → List SyntaxFault} (nonempty : behind ≠ [])
    (opener : Lexeme) (inside : List Lexeme → α) (unclosed : SyntaxFault → α) :
    (readGroup opener rest inside unclosed).Alone faults behind
      (readGroup opener (rest ++ behind) inside unclosed) := by
  intro _ halts
  rcases taken : takeGroup opener (rest ++ behind) with ⟨fault | inner, left⟩
  · -- A group without end takes everything, unless its opener is none.
    simp only [readGroup, taken] at halts ⊢
    rcases (takeGroup_uncut taken).2 with ⟨plain, rfl⟩ | ⟨-, -, -, rfl⟩
    · rw [takeGroup_of_none plain] at taken ⊢
      rw [← Except.error.inj (Prod.mk.inj taken).1]
      rfl
    · exact absurd (List.suffix_nil.mp halts) nonempty
  · simp only [readGroup, taken] at halts ⊢
    obtain ⟨after, rfl, alone⟩ := takeGroup_front taken halts
    rw [alone]
    rfl

theorem readAttributeGroup_alone (ends : AtComma behind)
    (halts : behind <:+ (readAttributeGroup (rest ++ behind)).2) :
    readAttributeGroup (rest ++ behind) = (readAttributeGroup rest).before behind := by
  rcases rest with _ | ⟨opener, rest⟩
  · obtain ⟨role, kind, after⟩ := ends
    simp only [List.nil_append, readAttributeGroup, role, reduceCtorEq, ↓reduceIte]
    rfl
  · simp only [List.cons_append, readAttributeGroup] at halts ⊢
    split
    · next opens =>
      rw [if_pos opens] at halts
      have group : (readGroup opener rest some fun _ => none).Alone (fun _ => []) behind
          (readGroup opener (rest ++ behind) some fun _ => none) :=
        readGroup_alone ends.ne_nil opener _ _
      exact group rfl halts
    · rfl

theorem readAttributesUpTo_alone (ends : AtComma behind) {count more : Nat}
    (enough : rest.length ≤ count) (enough' : rest.length ≤ more)
    (halts : behind <:+ (readAttributesUpTo more (rest ++ behind)).2) :
    readAttributesUpTo more (rest ++ behind) = (readAttributesUpTo count rest).before behind := by
  induction count generalizing rest more with
  | zero =>
    obtain rfl := List.eq_nil_of_length_eq_zero (Nat.le_zero.mp enough)
    obtain ⟨role, kind, after⟩ := ends
    rcases more with _ | more
    · rfl
    · rcases after with _ | ⟨next, after⟩
      · rfl
      · simp only [List.nil_append, readAttributesUpTo, role]
        rfl
  | succ count ih =>
    rcases rest with _ | ⟨colon, _ | ⟨word, rest⟩⟩
    · obtain ⟨role, kind, after⟩ := ends
      rcases more with _ | more
      · rfl
      · rcases after with _ | ⟨next, after⟩
        · rfl
        · simp only [List.nil_append, readAttributesUpTo, role]
          rfl
    · obtain ⟨more, rfl⟩ : ∃ fewer, more = fewer + 1 := ⟨more - 1, by simp at enough'; omega⟩
      obtain ⟨role, kind, after⟩ := ends
      have noWord : ∀ comma : Lexeme, comma.token.kind = .comma ∨ comma.token.kind = .fatComma →
          comma.isWord = false := by
        rintro comma (kind | kind) <;> simp [Lexeme.isWord, kind]
      simp only [List.cons_append, List.nil_append, readAttributesUpTo, noWord _ kind,
        Bool.and_false, Bool.false_eq_true, ↓reduceIte]
      rfl
    · obtain ⟨more, rfl⟩ : ∃ fewer, more = fewer + 1 := ⟨more - 1, by simp at enough'; omega⟩
      simp only [List.cons_append, readAttributesUpTo] at halts ⊢
      split
      · next marked =>
        rw [if_pos marked] at halts
        have group := readAttributeGroup_alone ends
          (halts.trans (readAttributesUpTo_suffix more _))
        have short := (readAttributeGroup_suffix rest).length_le
        simp only [List.length_cons] at enough enough'
        rw [group] at halts ⊢
        simp only [Parse.before] at halts ⊢
        rw [ih (by omega) (by omega) halts]
        rfl
      · rfl

/-- Attributes that leave what stands behind are those of what stands in front of it. -/
theorem readAttributes_alone (ends : AtComma behind)
    (halts : behind <:+ (readAttributes (rest ++ behind)).2) :
    readAttributes (rest ++ behind) = (readAttributes rest).before behind :=
  readAttributesUpTo_alone ends (Nat.le_refl _) (by simp) halts

namespace Grammar

/-! ## Faults -/

theorem faults_readTernary {condition : Node} {question : Lexeme}
    (sound : (full.readTernary condition question rest).1.faults = []) : condition.faults = [] := by
  simp only [readTernary] at sound
  split at sound
  all_goals exact (List.append_eq_nil_iff.mp (List.append_eq_nil_iff.mp sound).1).1

/-- Climbing keeps the faults of the operand that it starts with. -/
theorem faults_of_climb {level : Nat} {node : Node} {rest : List Lexeme}
    (sound : (full.climb level node rest).1.faults = []) : node.faults = [] := by
  rw [full_climb] at sound
  rcases same : rest with _ | ⟨next, after⟩
  · rwa [same] at sound
  · rw [same] at sound
    simp only [readClimb] at sound
    split at sound
    · split at sound
      · exact sound
      · have shorter : (full.readTernary node next after).2.length < rest.length := by
          rw [same]
          exact Nat.lt_succ_of_le (consumes_full.readTernary node next after).length_le
        exact faults_readTernary (faults_of_climb sound)
    · split at sound
      · exact sound
      · next binding found =>
        have shorter : (full.readRight next binding.rightLevel after).2.length < rest.length := by
          rw [same]
          exact Nat.lt_succ_of_le (consumes_full.readRight next _ after).length_le
        have kept := faults_of_climb sound
        rw [Node.faults_binary] at kept
        exact (List.append_eq_nil_iff.mp kept).1
    · exact sound
termination_by rest.length

variable {comma : Lexeme}

/-- A comma is no operand. -/
theorem faults_primary (ends : AtComma (comma :: rest)) :
    (full.primary comma rest).1.faults ≠ [] := by
  rw [full_primary]
  cases ends with
  | comma role kind =>
    rcases kind with kind | kind <;>
    · simp only [readPrimary, kind, role]
      exact List.cons_ne_nil _ _

theorem faults_operand (ends : AtComma (comma :: rest)) :
    (full.operand comma rest).1.faults ≠ [] := by
  intro sound
  have role : comma.category = .comma := by
    cases ends
    assumption
  rw [full_operand] at sound
  simp only [readOperand, role, readAtom, ← full_chain, ← full_primary] at sound
  exact faults_primary ends (faults_of_chain sound)

theorem faults_operation (ends : AtComma (comma :: rest)) (level : Nat) :
    (full.operation level comma rest).1.faults ≠ [] := by
  intro sound
  rw [full_operation] at sound
  simp only [readOperation, ← full_operand, ← full_climb] at sound
  exact faults_operand ends (faults_of_climb sound)

theorem faults_readRight (ends : AtComma behind) (op : Lexeme) (level : Nat) :
    (full.readRight op level behind).1.faults ≠ [] := by
  rcases behind with _ | ⟨comma, rest⟩
  · exact absurd rfl ends.ne_nil
  · exact faults_operation ends level

end Grammar

end SigilScript
