import SigilScript.Proofs.Comma.Basic

/-! # The productions in front of a comma

What one production leaves is given to the next, so each reading that stops in front of the comma is
put together from readings that stop there. The bound is on the lexemes in front of the comma.
-/

namespace SigilScript

namespace Grammar

variable {rest behind : List Lexeme} {n : Nat}

/-- The arguments behind the first one, if a comma follows it. -/
def furtherArguments (g : Grammar) (first : Parse Node) : Parse (List Node) :=
  if nextIs .comma first.2 then
    let further := g.arguments (first.2.dropWhile fun next => next.category = .comma)
    (first.1 :: further.1, further.2)
  else ([first.1], first.2)

theorem readArguments_starts {g : Grammar} {lexeme : Lexeme}
    (starts : lexeme.startsOperand = true) :
    g.readArguments (lexeme :: rest) =
      g.furtherArguments (g.operation Level.assignment lexeme rest) :=
  if_pos starts

theorem furtherArguments_suffix (first : Parse Node) :
    (full.furtherArguments first).2 <:+ first.2 := by
  simp only [furtherArguments]
  split
  · exact (consumes_full.arguments _).trans (List.dropWhile_suffix _)
  · exact List.suffix_refl _

theorem faults_furtherArguments {first : Parse Node}
    (sound : Node.faultsOfAll (full.furtherArguments first).1 = []) : first.1.faults = [] := by
  simp only [furtherArguments] at sound
  split at sound
  all_goals exact (List.append_eq_nil_iff.mp sound).1

/-- What every production leaves in front of a comma, on lists of fewer than `n` lexemes. -/
structure Fenced (behind : List Lexeme) (n : Nat) : Prop where
  ends : AtComma behind
  operation : ∀ level lexeme {rest}, rest.length < n → Quiet behind (lexeme :: rest) →
    (full.operation level lexeme rest).Alone Node.faults behind
      (full.operation level lexeme (rest ++ behind))
  climb : ∀ level node {rest lexemes}, rest.length < n → Quiet behind lexemes → rest <:+ lexemes →
    (full.climb level node rest).Alone Node.faults behind
      (full.climb level node (rest ++ behind))
  operand : ∀ lexeme {rest}, rest.length < n → Quiet behind (lexeme :: rest) →
    (full.operand lexeme rest).Alone Node.faults behind (full.operand lexeme (rest ++ behind))
  primary : ∀ lexeme {rest}, rest.length < n → Quiet behind (lexeme :: rest) →
    (full.primary lexeme rest).Alone Node.faults behind (full.primary lexeme (rest ++ behind))
  chain : ∀ node {rest}, rest.length < n →
    (full.chain node rest).Alone Node.faults behind (full.chain node (rest ++ behind))
  arguments : ∀ {rest}, rest.length < n → Quiet behind rest →
    (full.arguments rest).Alone Node.faultsOfAll behind (full.arguments (rest ++ behind))

namespace Fenced

/-! ## Lists and blocks -/

section

variable (ends : AtComma behind)
include ends

theorem readGroupElements (opener : Lexeme) :
    (full.readGroupElements opener rest).Alone Node.faultsOfAll behind
      (full.readGroupElements opener (rest ++ behind)) :=
  readGroup_alone ends.ne_nil opener _ _

theorem readMethodArguments :
    (full.readMethodArguments rest).Alone Node.faultsOfAll behind
      (full.readMethodArguments (rest ++ behind)) := by
  rcases rest with _ | ⟨opener, rest⟩
  · obtain ⟨role, kind, after⟩ := ends
    intro _ _
    simp only [List.nil_append, Grammar.readMethodArguments, role, reduceCtorEq, ↓reduceIte]
    rfl
  · simp only [List.cons_append, Grammar.readMethodArguments]
    split
    · exact readGroupElements ends opener
    · exact fun _ _ => rfl

/-- The place of a missing block does not matter where a block is read. -/
theorem readBlock (finish finish' : Position) :
    (full.readBlock finish rest).Alone Node.faultsOfAll behind
      (full.readBlock finish' (rest ++ behind)) := by
  rcases rest with _ | ⟨opener, rest⟩
  · obtain ⟨role, kind, after⟩ := ends
    intro sound
    simp [Grammar.readBlock, role, Node.faultsOfAll, faults_expected] at sound
  · simp only [List.cons_append, Grammar.readBlock]
    split
    · exact readGroup_alone ends.ne_nil opener _ _
    · intro sound
      simp [Node.faultsOfAll, faults_expected] at sound

theorem readParameters :
    (full.readParameters rest).Alone Node.faultsOfAll behind
      (full.readParameters (rest ++ behind)) := by
  rcases rest with _ | ⟨opener, rest⟩
  · obtain ⟨role, kind, after⟩ := ends
    intro _ _
    simp only [List.nil_append, Grammar.readParameters, role, reduceCtorEq, ↓reduceIte]
    rfl
  · simp only [List.cons_append, Grammar.readParameters]
    split
    · exact readGroup_alone ends.ne_nil opener _ _
    · exact fun _ _ => rfl

theorem readJump (jump : Jump) :
    (readJump jump rest).Alone Node.faults behind (Grammar.readJump jump (rest ++ behind)) := by
  rcases rest with _ | ⟨label, rest⟩
  · obtain ⟨role, kind, after⟩ := ends
    intro _ _
    simp only [List.nil_append, Grammar.readJump, role, reduceCtorEq, ↓reduceIte]
    rfl
  · intro _ _
    simp only [List.cons_append, Grammar.readJump]
    split <;> rfl

/-- A block does not take the comma behind it from what stands behind. -/
theorem readLeadingBlock (name : Lexeme) :
    (full.readLeadingBlock name rest).Alone Node.faultsOfAll behind
      (full.readLeadingBlock name (rest ++ behind)) := by
  intro sound halts
  unfold Grammar.readLeadingBlock at sound halts ⊢
  rw [nextIs_append_of_ne ends (by decide)] at sound halts ⊢
  split
  · next opens =>
    rw [if_pos opens] at sound halts
    have within (after : List Lexeme) :
        (if nextIs .comma after then after.tail else after) <:+ after := by
      split
      · exact List.tail_suffix after
      · exact List.suffix_refl after
    have kept : Node.faultsOfAll
        (full.readBlock (lastPosition name (rest ++ behind)) (rest ++ behind)).1 = [] :=
      (List.append_eq_nil_iff.mp sound).1
    have block := readBlock ends (lastPosition name rest) (lastPosition name (rest ++ behind)) kept
      (halts.trans (within _))
    rcases read : full.readBlock (lastPosition name rest) rest with ⟨body, after⟩
    rw [block, read] at halts
    rw [block, read]
    rcases after with _ | ⟨next, after⟩
    · obtain ⟨role, kind, after⟩ := ends
      simp only [Parse.before, List.nil_append, nextIs, List.head?_cons, Option.any_some, role,
        decide_true, ↓reduceIte, List.tail_cons] at halts
      exact absurd halts not_cons_suffix
    · simp only [Parse.before, List.cons_append, nextIs, List.head?_cons, Option.any_some]
      by_cases comma : next.category = .comma <;> simp [comma]
  · rfl

end

variable (f : Fenced behind n)
include f

/-- Where an argument follows, its comma does not stand behind. -/
theorem furtherArguments {lexemes : List Lexeme} (argument : Node) {after : List Lexeme}
    (short : after.length < n) (quiet : Quiet behind lexemes) (within : after <:+ lexemes) :
    (full.furtherArguments (argument, after)).Alone Node.faultsOfAll behind
      (full.furtherArguments (argument, after ++ behind)) := by
  intro sound halts
  by_cases commas : (after.dropWhile fun next => next.category = .comma) = []
  · -- All that is left in front is commas, so the one behind is taken with them.
    have comma : nextIs .comma (after ++ behind) = true := by
      rcases after with _ | ⟨next, after⟩
      · exact f.ends.nextIs_comma
      · by_cases role : next.category = .comma
        · simp [nextIs, role]
        · rw [List.dropWhile_cons_of_neg (by simpa using role)] at commas
          contradiction
    simp only [Grammar.furtherArguments, if_pos comma, List.dropWhile_append, commas,
      List.isEmpty_nil, ↓reduceIte] at halts
    exact absurd (halts.trans (consumes_full.arguments _)) f.ends.not_suffix_dropWhile
  · have nonempty : after ≠ [] := by
      rintro rfl
      exact commas rfl
    have same : (after ++ behind).dropWhile (fun next => next.category = .comma) =
        after.dropWhile (fun next => next.category = .comma) ++ behind := by
      rw [List.dropWhile_append, if_neg]
      rwa [List.isEmpty_iff]
    simp only [Grammar.furtherArguments, nextIs_append _ nonempty, same] at sound halts ⊢
    split
    · next comma =>
      rw [if_pos comma] at sound halts
      have dropped := (List.dropWhile_suffix (l := after)
        fun next => decide (next.category = .comma)).length_le
      have further := f.arguments (Nat.lt_of_le_of_lt dropped short)
        (quiet.afterCommas within comma) (List.append_eq_nil_iff.mp sound).2 halts
      simp only [further, Parse.before]
    · rfl

theorem readArguments (short : rest.length ≤ n) (quiet : Quiet behind rest) :
    (full.readArguments rest).Alone Node.faultsOfAll behind
      (full.readArguments (rest ++ behind)) := by
  rcases rest with _ | ⟨lexeme, rest⟩
  · obtain ⟨role, kind, after⟩ := f.ends
    intro _ _
    simp only [List.nil_append, Grammar.readArguments, Lexeme.startsOperand, role,
      Bool.false_eq_true, ↓reduceIte]
    rfl
  · intro sound halts
    by_cases starts : lexeme.startsOperand = true
    · rw [List.cons_append, readArguments_starts starts] at sound halts ⊢
      rw [readArguments_starts starts]
      have first := f.operation Level.assignment lexeme short quiet
        (faults_furtherArguments sound) (halts.trans (furtherArguments_suffix _))
      have taken := consumes_full.operation Level.assignment lexeme rest
      rw [first] at sound halts ⊢
      exact f.furtherArguments _ (Nat.lt_of_le_of_lt taken.length_le short) quiet
        (taken.trans (List.suffix_cons ..)) sound halts
    · simp only [List.cons_append, Grammar.readArguments, if_neg starts]
      rfl

omit f in
/-- An argument right before the comma takes the comma. -/
theorem not_suffix_readArguments (ends : AtComma behind) {lexeme : Lexeme}
    (starts : lexeme.startsOperand = true) :
    ¬ behind <:+ (full.readArguments (lexeme :: behind)).2 := by
  intro halts
  rw [readArguments_starts starts] at halts
  have taken := consumes_full.operation Level.assignment lexeme behind
  have same : (full.operation Level.assignment lexeme behind).2 = behind :=
    taken.eq_of_length_le (halts.trans (furtherArguments_suffix _)).length_le
  simp only [Grammar.furtherArguments, same, ends.nextIs_comma, ↓reduceIte] at halts
  exact ends.not_suffix_dropWhile (halts.trans (consumes_full.arguments _))

theorem readCallArguments (short : rest.length ≤ n) (quiet : Quiet behind rest) :
    (full.readCallArguments rest).Alone Node.faultsOfAll behind
      (full.readCallArguments (rest ++ behind)) := by
  have listed := f.readArguments short quiet
  rcases rest with _ | ⟨opener, rest⟩
  · obtain ⟨role, kind, after⟩ := f.ends
    simp only [List.nil_append, Grammar.readCallArguments, role, reduceCtorEq, ↓reduceIte]
    exact listed
  · simp only [List.cons_append, Grammar.readCallArguments]
    split
    · exact readGroupElements f.ends opener
    · exact listed

/-! ## Operands -/

/-- A chain goes on where one of its links ends. -/
theorem onward {link further : Parse Node} (alone : link.Alone Node.faults behind further)
    (short : link.2.length < n) :
    (full.chain link.1 link.2).Alone Node.faults behind (full.chain further.1 further.2) := by
  intro sound halts
  have same := alone (faults_of_chain sound) (halts.trans (consumes_full.chain _ _))
  rw [same] at sound halts ⊢
  exact f.chain link.1 short sound halts

theorem readRight (op : Lexeme) (level : Nat) (short : rest.length ≤ n)
    (quiet : Quiet behind rest) :
    (full.readRight op level rest).Alone Node.faults behind
      (full.readRight op level (rest ++ behind)) := by
  rcases rest with _ | ⟨lexeme, rest⟩
  · intro sound
    exact absurd sound (faults_readRight f.ends op level)
  · exact f.operation level lexeme short quiet

/-- A group in braces, or a variable, and nothing else is dereferenced. -/
theorem readDereference (sigil : Sigil) (lexeme : Lexeme) (short : rest.length ≤ n)
    (quiet : Quiet behind (lexeme :: rest)) :
    (full.readDereference sigil lexeme rest).Alone Node.faults behind
      (full.readDereference sigil lexeme (rest ++ behind)) := by
  rcases rest with _ | ⟨next, rest⟩
  · obtain ⟨role, kind, after⟩ := f.ends
    intro sound
    simp [Grammar.readDereference, role, faults_expected] at sound
  · have kept (target : Node) (sound : (dereferenced lexeme sigil target).faults = []) :
        target.faults = [] := (faults_dereferenced lexeme sigil target).symm.trans sound
    simp only [List.cons_append, Grammar.readDereference]
    split
    · exact (readGroup_alone f.ends.ne_nil next _ _).map (dereferenced lexeme sigil) kept
    · split
      · next shape =>
        have plain : ¬ next.IsName := by
          simp only [Bool.or_eq_true, decide_eq_true_eq] at shape
          rcases shape with shape | shape <;> simp [Lexeme.IsName, shape]
        exact (f.primary next short (quiet.tail_of_plain plain)).map (dereferenced lexeme sigil) kept
      · exact fun _ _ => rfl

theorem readDeclaration (lexeme : Lexeme) (short : rest.length ≤ n)
    (quiet : Quiet behind rest) :
    (full.readDeclaration lexeme rest).Alone Node.faults behind
      (full.readDeclaration lexeme (rest ++ behind)) := by
  rcases rest with _ | ⟨next, rest⟩
  · obtain ⟨role, kind, after⟩ := f.ends
    intro sound
    simp only [List.nil_append, Grammar.readDeclaration, role, reduceCtorEq, ↓reduceIte,
      Node.declare, Node.faults, Node.faultsOfAll, Node.faultsOfOption, List.append_nil] at sound
    exact absurd (faults_of_chain sound) (faults_primary (.comma role kind after))
  · have kept (targets : List Node) (sound : (Node.declare lexeme.text targets).faults = []) :
        Node.faultsOfAll targets = [] := (List.append_eq_nil_iff.mp sound).1
    simp only [List.cons_append, Grammar.readDeclaration]
    split
    · exact (readGroupElements f.ends next).map (.declare lexeme.text) kept
    · have taken := (consumes_full.primary next rest).length_le
      have target := f.onward (f.primary next short quiet) (Nat.lt_of_le_of_lt taken short)
      exact target.map (fun target => .declare lexeme.text [target]) fun target sound =>
        (List.append_eq_nil_iff.mp (kept [target] sound)).1

omit f in
/-- A filehandle is told by what stands behind it only where it is a name. -/
theorem readFilehandle (ends : AtComma behind)
    (told : ∀ name, rest = [name] → name.category ≠ .identifier) :
    (full.readFilehandle rest).Alone Node.faultsOfOption behind
      (full.readFilehandle (rest ++ behind)) := by
  rcases rest with _ | ⟨first, rest⟩
  · obtain ⟨role, kind, after⟩ := ends
    intro _ _
    simp only [List.nil_append, Grammar.readFilehandle, role]
    rfl
  · simp only [List.cons_append, Grammar.readFilehandle]
    split
    · exact readGroup_alone ends.ne_nil first _ _
    · next role =>
      have nonempty : rest ≠ [] := by
        rintro rfl
        exact told first rfl role
      intro _ _
      rw [List.head?_append_of_ne_nil _ nonempty]
      split <;> rfl
    · intro _ _
      rw [nextIs_append_of_ne ends (by decide), nextIs_append_of_ne ends (by decide)]
      split <;> rfl
    · exact fun _ _ => rfl

omit f in
/-- What is left behind a filehandle ends as the whole does. -/
theorem quiet_readFilehandle (quiet : Quiet behind rest) :
    Quiet behind (full.readFilehandle rest).2 := by
  rcases rest with _ | ⟨first, rest⟩
  · exact quiet
  · simp only [Grammar.readFilehandle]
    split
    · next role =>
      rw [readGroup_snd]
      exact quiet.afterGroup (by simp [role])
    · next role =>
      split
      · exact quiet
      · exact quiet.tail (by simp [role])
    · next role =>
      split
      · exact quiet.tail (by simp [role])
      · exact quiet
    · exact quiet

omit f in
theorem readAnonymousSub (ends : AtComma behind) (keyword : Lexeme) :
    (full.readAnonymousSub keyword rest).Alone Node.faults behind
      (full.readAnonymousSub keyword (rest ++ behind)) := by
  intro sound halts
  have reads (rest : List Lexeme) : full.readAnonymousSub keyword rest =
      (.sub none (full.readParameters rest).1
          (full.readBlock (lastPosition keyword rest)
            (readAttributes (full.readParameters rest).2).2).1,
        (full.readBlock (lastPosition keyword rest)
          (readAttributes (full.readParameters rest).2).2).2) := rfl
  rw [reads] at sound halts ⊢
  obtain ⟨signature, block⟩ := List.append_eq_nil_iff.mp sound
  have marked := halts.trans (Consumes.readBlock _ _)
  have params := readParameters ends signature (marked.trans (readAttributes_suffix _))
  rw [params, Parse.before_snd] at block halts marked
  have attributes := readAttributes_alone ends marked
  rw [attributes, Parse.before_snd] at block halts
  have body := readBlock ends (lastPosition keyword rest) _ block halts
  rw [reads, params, Parse.before_snd, attributes, Parse.before_snd, body]
  rfl

theorem readCall (name : String) (short : rest.length ≤ n) (quiet : Quiet behind rest) :
    (full.readCall name rest).Alone Node.faults behind
      (full.readCall name (rest ++ behind)) :=
  (f.readCallArguments short quiet).map (.call name) fun _ => id

theorem readAlarm (alarm : Alarm) (short : rest.length ≤ n) (quiet : Quiet behind rest) :
    (full.readAlarm alarm rest).Alone Node.faults behind
      (full.readAlarm alarm (rest ++ behind)) :=
  (f.readCallArguments short quiet).map (.alarm alarm) fun _ => id

theorem readRequire (keyword : Lexeme) (short : rest.length ≤ n) (quiet : Quiet behind rest) :
    (full.readRequire keyword rest).Alone Node.faults behind
      (full.readRequire keyword (rest ++ behind)) := by
  have same : (rest ++ behind).head?.filter Lexeme.isWord = rest.head?.filter Lexeme.isWord := by
    rcases rest with _ | ⟨first, rest⟩
    · obtain ⟨role, kind, after⟩ := f.ends
      rcases kind with kind | kind <;> simp [Lexeme.isWord, kind]
    · rfl
  unfold Grammar.readRequire
  rw [same]
  split
  · next word found =>
    rcases rest with _ | ⟨first, rest⟩
    · contradiction
    · exact fun _ _ => rfl
  · exact (f.readRight keyword Level.namedUnary short quiet).map .require fun _ => id

/-- A name that could be a filehandle takes the comma behind it, so it ends no output. -/
theorem readOutput (output : Output) (short : rest.length ≤ n) (quiet : Quiet behind rest) :
    (full.readOutput output rest).Alone Node.faults behind
      (full.readOutput output (rest ++ behind)) := by
  intro sound halts
  have reads (rest : List Lexeme) : full.readOutput output rest =
      (.output output (full.readFilehandle rest).1
          (full.readArguments (full.readFilehandle rest).2).1,
        (full.readArguments (full.readFilehandle rest).2).2) := rfl
  have told (name : Lexeme) (same : rest = [name]) : name.category ≠ .identifier := by
    intro role
    rw [same, reads] at halts
    obtain ⟨comma, kind, after⟩ := f.ends
    have noHandle (comma : Lexeme) (after : List Lexeme) (role' : comma.category = .comma) :
        full.readFilehandle (name :: comma :: after) = (none, name :: comma :: after) := by
      simp [Grammar.readFilehandle, role, Lexeme.rulesOutFilehandle, role']
    simp only [List.cons_append, List.nil_append, noHandle _ _ comma] at halts
    exact not_suffix_readArguments (.comma comma kind after)
      (by simp [Lexeme.startsOperand, role]) halts
  rw [reads] at sound halts
  obtain ⟨handled, listed⟩ := List.append_eq_nil_iff.mp sound
  have filehandle := readFilehandle f.ends told handled
    (halts.trans (consumes_full.readArguments _))
  rw [filehandle, Parse.before_snd] at listed halts
  have taken := Consumes.readFilehandle (g := full) rest
  have args := f.readArguments (Nat.le_trans taken.length_le short) (quiet_readFilehandle quiet)
    listed halts
  rw [reads, reads, filehandle, Parse.before_snd, args]
  rfl

theorem readKeyword (keyword : Lexeme) (short : rest.length ≤ n) (quiet : Quiet behind rest) :
    (full.readKeyword keyword rest).Alone Node.faults behind
      (full.readKeyword keyword (rest ++ behind)) := by
  unfold Grammar.readKeyword
  rw [nextIs_append_of_ne f.ends (by decide), nextIs_append_of_ne f.ends (by decide)]
  split
  · split
    · exact f.readCall _ short quiet
    · exact f.readOutput _ short quiet
  · split
    · exact f.readCall _ short quiet
    · exact f.readOutput _ short quiet
  · split
    · exact f.readCall _ short quiet
    · split
      · exact (readBlock f.ends (lastPosition keyword rest) _).map .doBlock fun _ => id
      · exact (f.readRight keyword Level.namedUnary short quiet).map (fun node => .call "do" [node])
          fun _ sound => (List.append_eq_nil_iff.mp sound).1
  · split
    · exact f.readCall _ short quiet
    · exact f.readRequire keyword short quiet
  · exact readAnonymousSub f.ends keyword
  · exact f.readAlarm _ short quiet
  · exact f.readAlarm _ short quiet
  · have valued (values : List Node) :
        (Node.returned (valueOf values)).faults = Node.faultsOfAll values := by
      rcases values with _ | ⟨first, _ | ⟨second, values⟩⟩
      · rfl
      · simp [valueOf, Node.faults, Node.faultsOfAll, Node.faultsOfOption]
      · rfl
    exact (f.readArguments short quiet).map (fun values => .returned (valueOf values))
      fun values sound => (valued values).symm.trans sound
  · exact readJump f.ends _
  · exact readJump f.ends _
  · exact readJump f.ends _
  · exact fun _ _ => rfl

theorem readNamedOperand (short : rest.length ≤ n) (quiet : Quiet behind rest) :
    (full.readNamedOperand rest).Alone Node.faultsOfAll behind
      (full.readNamedOperand (rest ++ behind)) := by
  rcases rest with _ | ⟨lexeme, rest⟩
  · obtain ⟨role, kind, after⟩ := f.ends
    intro _ _
    simp only [List.nil_append, Grammar.readNamedOperand, Lexeme.startsNamedOperand,
      Lexeme.startsOperand, role, Bool.false_and, Bool.false_eq_true, ↓reduceIte]
    rfl
  · simp only [List.cons_append, Grammar.readNamedOperand]
    split
    · intro sound halts
      have operand := f.operation Level.namedUnary lexeme short quiet
        (List.append_eq_nil_iff.mp sound).1 halts
      simp only [operand, Parse.before]
    · exact fun _ _ => rfl

omit f in
/-- What is left behind a leading block ends as the whole does. -/
theorem quiet_readLeadingBlock (quiet : Quiet behind rest) (name : Lexeme) :
    Quiet behind (full.readLeadingBlock name rest).2 := by
  unfold Grammar.readLeadingBlock
  split
  · next opens =>
    rcases rest with _ | ⟨opener, rest⟩
    · simp [nextIs] at opens
    · have role : opener.category = .leftBrace := by
        simpa [nextIs] using (Bool.and_eq_true_iff.mp opens).2
      have block : Quiet behind
          (full.readBlock (lastPosition name (opener :: rest)) (opener :: rest)).2 := by
        simp only [Grammar.readBlock, if_pos role, readGroup_snd]
        exact quiet.afterGroup (by simp [role])
      revert block
      rcases full.readBlock (lastPosition name (opener :: rest)) (opener :: rest) with
        ⟨body, _ | ⟨comma, after⟩⟩ <;> intro block
      · exact .nil
      · simp only [nextIs, List.head?_cons, Option.any_some, decide_eq_true_eq, List.tail_cons]
        split
        · next separates => exact block.tail (by simp [separates])
        · exact block
  · exact quiet

theorem readBuiltin (name : Lexeme) (short : rest.length ≤ n) (quiet : Quiet behind rest) :
    (full.readBuiltin name rest).Alone Node.faults behind
      (full.readBuiltin name (rest ++ behind)) := by
  unfold Grammar.readBuiltin
  split
  · exact fun _ _ => rfl
  · split
    · exact (f.readNamedOperand short quiet).map (.call name.text) fun _ => id
    · intro sound halts
      have faults := Node.faultsOfAll_append (full.readLeadingBlock name (rest ++ behind)).1
        (full.readArguments (full.readLeadingBlock name (rest ++ behind)).2).1
      obtain ⟨block, listed⟩ := List.append_eq_nil_iff.mp (faults.symm.trans sound)
      have halts : behind <:+
          (full.readArguments (full.readLeadingBlock name (rest ++ behind)).2).2 := halts
      have leading := readLeadingBlock f.ends name block
        (halts.trans (consumes_full.readArguments _))
      have taken := Consumes.readLeadingBlock (g := full) name rest
      rw [leading, Parse.before_snd] at listed halts
      have args := f.readArguments (Nat.le_trans taken.length_le short)
        (quiet_readLeadingBlock quiet name) listed halts
      simp only [leading, Parse.before, args]

/-- A name is told by what stands behind it, and no name stands before a fat comma here. -/
theorem readWord (name : Lexeme) (names : name.IsName) (short : rest.length ≤ n)
    (quiet : Quiet behind (name :: rest)) :
    (full.readWord name rest).Alone Node.faults behind
      (full.readWord name (rest ++ behind)) := by
  have further : Quiet behind rest := quiet.tail (by rcases names with role | role <;> simp [role])
  have fat : (rest ++ behind).head?.any Lexeme.isFatComma = rest.head?.any Lexeme.isFatComma := by
    rcases rest with _ | ⟨next, rest⟩
    · exact quiet.noFatComma names
    · rfl
  unfold Grammar.readWord
  rw [fat, nextIs_append_of_ne f.ends (by decide), nextIs_append_of_ne f.ends (by decide),
    nextIs_append_of_ne f.ends (by decide), nextIs_append_of_ne f.ends (by decide)]
  split
  · exact fun _ _ => rfl
  · split
    · exact f.readCall _ short further
    · split
      · exact f.readBuiltin name short further
      · split
        · exact (f.readArguments short further).map (.call name.text) fun _ => id
        · exact fun _ _ => rfl

theorem readPrimary (lexeme : Lexeme) (short : rest.length ≤ n)
    (quiet : Quiet behind (lexeme :: rest)) :
    (full.readPrimary lexeme rest).Alone Node.faults behind
      (full.readPrimary lexeme (rest ++ behind)) := by
  unfold Grammar.readPrimary
  split
  · exact fun _ _ => rfl
  · exact fun _ _ => rfl
  · exact fun _ _ => rfl
  · exact fun _ _ => rfl
  · exact fun _ _ => rfl
  · exact f.readDereference _ lexeme short quiet
  · split
    · exact fun _ _ => rfl
    · exact readGroup_alone f.ends.ne_nil lexeme _ _
    · exact readGroup_alone f.ends.ne_nil lexeme _ _
    · exact readGroup_alone f.ends.ne_nil lexeme _ _
    · next role => exact f.readDeclaration lexeme short (quiet.tail (by simp [role]))
    · next role => exact f.readKeyword lexeme short (quiet.tail (by simp [role]))
    · next role => exact f.readWord lexeme (.inl role) short quiet
    · next role => exact f.readWord lexeme (.inr role) short quiet
    · exact fun _ _ => rfl

/-! ## Chains -/

section

variable (ends : AtComma behind)
include ends

omit f in
theorem readPostfixDeref (base : Node) (lexeme : Lexeme) (sigil : Sigil) :
    (full.readPostfixDeref base lexeme sigil rest).Alone Node.faults behind
      (full.readPostfixDeref base lexeme sigil (rest ++ behind)) := by
  rcases rest with _ | ⟨next, rest⟩
  · obtain ⟨role, kind, after⟩ := ends
    intro sound
    simp [Grammar.readPostfixDeref, Lexeme.isOperator, role, faults_expected] at sound
  · simp only [List.cons_append, Grammar.readPostfixDeref]
    split
    · exact fun _ _ => rfl
    · split
      · exact readGroup_alone ends.ne_nil next _ _
      · exact fun _ _ => rfl

omit f in
theorem readMethod (invocant : Node) (name : Lexeme) :
    (full.readMethod invocant name rest).Alone Node.faults behind
      (full.readMethod invocant name (rest ++ behind)) := by
  exact (readMethodArguments ends).map (.methodCall invocant name.text) fun _ sound =>
    (List.append_eq_nil_iff.mp sound).2

omit f in
theorem readArrow (base : Node) (arrow : Lexeme) :
    (full.readArrow base arrow rest).Alone Node.faults behind
      (full.readArrow base arrow (rest ++ behind)) := by
  rcases rest with _ | ⟨next, rest⟩
  · obtain ⟨role, kind, after⟩ := ends
    intro sound
    rcases kind with kind | kind <;>
      simp [Grammar.readArrow, role, kind, faults_expected] at sound
  · simp only [List.cons_append, Grammar.readArrow]
    split
    · exact readGroup_alone ends.ne_nil next _ _
    · exact readGroup_alone ends.ne_nil next _ _
    · exact readGroup_alone ends.ne_nil next _ _
    · exact readPostfixDeref ends base next _
    · exact fun _ _ => rfl
    · exact readMethod ends base next
    · exact readMethod ends base next
    · exact fun _ _ => rfl

end

theorem readChain (node : Node) (short : rest.length ≤ n) :
    (full.readChain node rest).Alone Node.faults behind
      (full.readChain node (rest ++ behind)) := by
  rcases rest with _ | ⟨next, rest⟩
  · obtain ⟨role, kind, after⟩ := f.ends
    intro _ _
    simp only [List.nil_append, Grammar.readChain, role]
    rfl
  · have group := (readGroup_suffix next rest (fun lexemes =>
      indexed node next (full.readIndex next lexemes)) .error).length_le
    have arrow := (Consumes.readArrow (g := full) node next rest).length_le
    simp only [List.cons_append, Grammar.readChain]
    split
    · split
      · exact f.onward (readGroup_alone f.ends.ne_nil next _ _) (Nat.lt_of_le_of_lt group short)
      · exact fun _ _ => rfl
    · split
      · exact f.onward (readGroup_alone f.ends.ne_nil next _ _) (Nat.lt_of_le_of_lt group short)
      · exact fun _ _ => rfl
    · exact f.onward (readArrow f.ends node next) (Nat.lt_of_le_of_lt arrow short)
    · split
      · exact f.chain _ short
      · exact fun _ _ => rfl
    · exact fun _ _ => rfl

/-! ## Operators -/

theorem readAtom (lexeme : Lexeme) (short : rest.length ≤ n)
    (quiet : Quiet behind (lexeme :: rest)) :
    (full.readAtom lexeme rest).Alone Node.faults behind
      (full.readAtom lexeme (rest ++ behind)) := by
  intro sound halts
  have reads (rest : List Lexeme) : full.readAtom lexeme rest =
      full.readChain (full.readPrimary lexeme rest).1 (full.readPrimary lexeme rest).2 := rfl
  rw [reads] at sound halts
  have kept : (full.readPrimary lexeme (rest ++ behind)).1.faults = [] := by
    rw [← full_chain] at sound
    exact faults_of_chain sound
  have first := f.readPrimary lexeme short quiet kept
    (halts.trans (consumes_full.readChain _ _))
  have taken := (consumes_full.readPrimary lexeme rest).length_le
  rw [first] at sound halts
  rw [reads, reads, first]
  exact f.readChain _ (Nat.le_trans taken short) sound halts

theorem readLeading (op : Lexeme) (short : rest.length ≤ n) (quiet : Quiet behind rest) :
    (full.readLeading op rest).Alone Node.faults behind
      (full.readLeading op (rest ++ behind)) := by
  rcases rest with _ | ⟨lexeme, rest⟩
  · obtain ⟨role, kind, after⟩ := f.ends
    intro sound
    simp only [List.nil_append, Grammar.readLeading] at sound
    split at sound
    · exact absurd sound (faults_operand (.comma role kind after))
    · exact absurd sound (faults_operation (.comma role kind after) _)
  · simp only [List.cons_append, Grammar.readLeading]
    split
    · exact (f.operand lexeme short quiet).map (.leading op.text) fun _ => id
    · exact (f.operation _ lexeme short quiet).map (.leading op.text) fun _ => id

theorem readOperand (lexeme : Lexeme) (short : rest.length ≤ n)
    (quiet : Quiet behind (lexeme :: rest)) :
    (full.readOperand lexeme rest).Alone Node.faults behind
      (full.readOperand lexeme (rest ++ behind)) := by
  by_cases unary : lexeme.category = .unaryOperator
  · have further : Quiet behind rest := quiet.tail (by simp [unary])
    simp only [Grammar.readOperand, unary]
    split
    · exact (f.readRight lexeme Level.negation short further).map (.leading lexeme.text) fun _ => id
    · exact f.readLeading lexeme short further
  · by_cases binary : lexeme.category = .binaryOperator
    · have further : Quiet behind rest := quiet.tail (by simp [binary])
      have leading := f.readLeading lexeme short further
      by_cases minus : lexeme.text = "-"
      · simpa only [Grammar.readOperand, binary, minus] using leading
      · by_cases plus : lexeme.text = "+"
        · rcases rest with _ | ⟨next, rest⟩
          · obtain ⟨role, kind, after⟩ := f.ends
            simpa only [List.nil_append, Grammar.readOperand, binary, plus, role, reduceCtorEq,
              ↓reduceIte] using leading
          · by_cases opens : next.category = .leftBrace
            · have reads (rest : List Lexeme) : full.readOperand lexeme (next :: rest) =
                  full.chain (full.primary next rest).1 (full.primary next rest).2 := by
                simp only [Grammar.readOperand, binary, plus, opens, ↓reduceIte]
              have taken := (consumes_full.primary next rest).length_le
              rw [List.cons_append, reads, reads]
              exact f.onward (f.primary next short further) (Nat.lt_of_le_of_lt taken short)
            · simpa only [List.cons_append, Grammar.readOperand, binary, plus, if_neg opens]
                using leading
        · have atom := readOperand_atom unary fun _ => ⟨plus, minus⟩
          rw [atom, atom, full_chain, full_primary]
          exact f.readAtom lexeme short quiet
    · have atom := readOperand_atom unary fun role => absurd role binary
      rw [atom, atom, full_chain, full_primary]
      exact f.readAtom lexeme short quiet

theorem readTernary (condition : Node) (question : Lexeme) (short : rest.length ≤ n)
    (quiet : Quiet behind rest) :
    (full.readTernary condition question rest).Alone Node.faults behind
      (full.readTernary condition question (rest ++ behind)) := by
  intro sound halts
  rcases found : cutAtColon? 0 0 (rest ++ behind) with _ | cut
  · simp only [Grammar.readTernary, found] at halts
    exact absurd (List.suffix_nil.mp halts) f.ends.ne_nil
  · have within : behind <:+ cut.after := by
      rcases same : cut.after with _ | ⟨lexeme, after⟩
      · simpa only [Grammar.readTernary, found, same] using halts
      · simp only [Grammar.readTernary, found, same] at halts
        exact halts.trans ((consumes_full.operation _ _ _).trans (List.suffix_cons ..))
    obtain ⟨after, same, alone⟩ := isSearch_cutAtColon?.front (0, 0) found within
    have suffix : cut.found :: after <:+ rest := by
      rw [← cutAtColon?_whole alone]
      exact List.suffix_append _ _
    have colon := cutAtColon?_found found
    have further : Quiet behind after := quiet.after suffix (by simp [colon])
    simp only [Grammar.readTernary, found, alone, same] at sound halts ⊢
    rcases after with _ | ⟨lexeme, after⟩
    · obtain ⟨role, kind, after⟩ := f.ends
      exact absurd (List.append_eq_nil_iff.mp sound).2
        (faults_operation (.comma role kind after) _)
    · have shorter : after.length < n :=
        Nat.lt_of_lt_of_le (Nat.lt_of_succ_lt suffix.length_le) short
      have operand := f.operation Level.ternary lexeme shorter further
        (List.append_eq_nil_iff.mp sound).2 halts
      simp only [List.cons_append, operand, Parse.before]

theorem readClimb (level : Nat) (node : Node) {lexemes : List Lexeme} (short : rest.length ≤ n)
    (quiet : Quiet behind lexemes) (within : rest <:+ lexemes) :
    (full.readClimb level node rest).Alone Node.faults behind
      (full.readClimb level node (rest ++ behind)) := by
  rcases rest with _ | ⟨next, rest⟩
  · obtain ⟨role, kind, after⟩ := f.ends
    intro _ _
    simp only [List.nil_append, Grammar.readClimb, role]
    rfl
  · have short : rest.length < n := short
    have shorter := Nat.le_of_lt short
    have behindNext := (List.suffix_cons next rest).trans within
    simp only [List.cons_append, Grammar.readClimb]
    split
    · next role =>
      have further : Quiet behind rest := quiet.after within (by simp [role])
      split
      · exact fun _ _ => rfl
      · intro sound halts
        have taken := consumes_full.readTernary node next rest
        have first := f.readTernary node next shorter further (faults_of_climb sound)
          (halts.trans (consumes_full.climb _ _ _))
        simp only [first] at sound halts ⊢
        exact f.climb level _ (Nat.lt_of_le_of_lt taken.length_le short) quiet
          (taken.trans behindNext) sound halts
    · next role =>
      have further : Quiet behind rest := quiet.after within (by simp [role])
      split
      · exact fun _ _ => rfl
      · next binding found =>
        intro sound halts
        have taken := consumes_full.readRight next binding.rightLevel rest
        have joined := faults_of_climb sound
        rw [Node.faults_binary] at joined
        have first := f.readRight next binding.rightLevel shorter further
          (List.append_eq_nil_iff.mp joined).2 (halts.trans (consumes_full.climb _ _ _))
        simp only [first] at sound halts ⊢
        exact f.climb level _ (Nat.lt_of_le_of_lt taken.length_le short) quiet
          (taken.trans behindNext) sound halts
    · exact fun _ _ => rfl

theorem readOperation (level : Nat) (lexeme : Lexeme) (short : rest.length ≤ n)
    (quiet : Quiet behind (lexeme :: rest)) :
    (full.readOperation level lexeme rest).Alone Node.faults behind
      (full.readOperation level lexeme (rest ++ behind)) := by
  intro sound halts
  have reads (rest : List Lexeme) : full.readOperation level lexeme rest =
      full.readClimb level (full.readOperand lexeme rest).1 (full.readOperand lexeme rest).2 := rfl
  rw [reads] at sound halts
  have kept : (full.readOperand lexeme (rest ++ behind)).1.faults = [] := by
    rw [← full_climb] at sound
    exact faults_of_climb sound
  have first := f.readOperand lexeme short quiet kept (halts.trans (consumes_full.readClimb _ _ _))
  have taken := consumes_full.readOperand lexeme rest
  rw [first] at sound halts
  rw [reads, reads, first]
  exact f.readClimb level _ (Nat.le_trans taken.length_le short) quiet
    (taken.trans (List.suffix_cons ..)) sound halts

/-- What holds on short lists holds on those that are one lexeme longer. -/
theorem step : Fenced behind (n + 1) where
  ends := f.ends
  operation level lexeme rest short quiet := by
    rw [full_operation]
    exact f.readOperation level lexeme (Nat.le_of_lt_succ short) quiet
  climb level node rest lexemes short quiet within := by
    rw [full_climb]
    exact f.readClimb level node (Nat.le_of_lt_succ short) quiet within
  operand lexeme rest short quiet := by
    rw [full_operand]
    exact f.readOperand lexeme (Nat.le_of_lt_succ short) quiet
  primary lexeme rest short quiet := by
    rw [full_primary]
    exact f.readPrimary lexeme (Nat.le_of_lt_succ short) quiet
  chain node rest short := by
    rw [full_chain]
    exact f.readChain node (Nat.le_of_lt_succ short)
  arguments short quiet := by
    rw [full_arguments]
    exact f.readArguments (Nat.le_of_lt_succ short) quiet

end Fenced

/-- In front of a comma every production reads what it reads at the end. -/
theorem fenced (ends : AtComma behind) (n : Nat) : Fenced behind n := by
  induction n with
  | zero =>
    exact {
      ends
      operation := fun _ _ _ short => absurd short (Nat.not_lt_zero _)
      climb := fun _ _ _ _ short => absurd short (Nat.not_lt_zero _)
      operand := fun _ _ short => absurd short (Nat.not_lt_zero _)
      primary := fun _ _ short => absurd short (Nat.not_lt_zero _)
      chain := fun _ _ short => absurd short (Nat.not_lt_zero _)
      arguments := fun short => absurd short (Nat.not_lt_zero _) }
  | succ n ih => exact ih.step

/-- An operation that leaves the comma behind it is read the same where nothing stands behind. -/
theorem operation_alone (ends : AtComma behind) {level : Nat} {lexeme : Lexeme}
    (quiet : Quiet behind (lexeme :: rest))
    (sound : (full.operation level lexeme (rest ++ behind)).1.faults = [])
    (leaves : (full.operation level lexeme (rest ++ behind)).2 = behind) :
    full.operation level lexeme rest =
      ((full.operation level lexeme (rest ++ behind)).1, []) := by
  have halts : behind <:+ (full.operation level lexeme (rest ++ behind)).2 := ⟨[], leaves.symm⟩
  have same := (fenced ends (rest.length + 1)).operation level lexeme (Nat.lt_succ_self _) quiet
    sound halts
  rw [same, Parse.before_snd] at leaves
  rw [same, Parse.before_fst, ← List.append_left_eq_self.mp leaves]

end Grammar

end SigilScript
