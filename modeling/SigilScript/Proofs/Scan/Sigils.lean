import SigilScript.Proofs.Scan.Progress
import SigilScript.Proofs.Scan.Twins

/-! # What a sigil begins

What begins with a sigil is chosen by the two characters behind it. The choice is made here before
anything is read, so that it can be told which of the two characters it rests on: a token that takes
both of them, or that no third character can go on.
-/

namespace SigilScript

/-- What a sigil begins, by the two characters behind it. -/
inductive SigilChoice where
  /-- A variable with its name right behind the sigil. -/
  | name
  /-- A variable whose name is qualified from the start. -/
  | qualified
  /-- The last index of an array, by its name. -/
  | lastIndex
  /-- A sigil, spelled like this, that dereferences what follows. -/
  | dereference (text : List Char)
  /-- A variable that is spelled with digits, or with a single mark. -/
  | special (c : Char)
  | operator
  | fault (count : Nat)

namespace SigilChoice

/-- What begins where neither a name nor something to dereference stands behind the sigil. -/
def ofMark (afterNext : Option Char) : Sigil → Option Char → SigilChoice
  | .scalar, some c =>
    if c.isDigit || c ∈ ['@', '!', '&', '/', '\\', '$'] then .special c
    else if c = '#' ∧ afterNext.any isNameStart then .lastIndex
    else if c = '#' ∧ afterNext.any (fun c => c = '{' || c = '$') then .dereference ['$', '#']
    else .fault (if c = '#' then 2 else 1)
  | .hash, _ => .operator
  | _, next => .fault (if next = some '#' then 2 else 1)

/-- What begins with a sigil. -/
def of (sigil : Sigil) (next afterNext : Option Char) : SigilChoice :=
  if next.any isNameStart then .name
  else if next = some ':' ∧ afterNext = some ':' then .qualified
  else if next.any (· ∈ ['*', '[', '{']) then .dereference [sigil.char]
  else if next = some '$' ∧
      (sigil ≠ .scalar ∨ afterNext.any fun c => isNameStart c || c = '$' || c = '{') then
    .dereference [sigil.char]
  else ofMark afterNext sigil next

/-- Read what was chosen. -/
def read (choice : SigilChoice) (reader : Reader) (sigil : Sigil) : Reading :=
  let looked := reader.look 3
  let named (opening : List Char) : Reading :=
    (reader.token (.var sigil) (opening ++ (looked.skip opening.length).name.1),
      (looked.skip opening.length).name.2)
  match choice with
  | name => named [sigil.char]
  | qualified => named [sigil.char, ':', ':']
  | lastIndex => named ['$', '#']
  | dereference text => (reader.token (.derefSigil sigil) text, looked.skip text.length)
  | special c =>
    if c.isDigit then
      (reader.token (.var sigil)
        ([sigil.char, c] ++ ((looked.skip 2).run isDigitOrUnderscore).1),
        ((looked.skip 2).run isDigitOrUnderscore).2)
    else (reader.token (.var sigil) [sigil.char, c], looked.skip 2)
  | operator => looked.operator
  | fault count => (reader.fault (.unexpectedCharacter sigil.char), looked.skip count)

/-- Whether a token is read that leans on nothing. -/
def alone : SigilChoice → Bool
  | dereference _ | fault _ => false
  | _ => true

/-- How many characters are read at least. -/
def span : SigilChoice → Nat
  | operator => 1
  | name | special _ => 2
  | qualified | lastIndex => 3
  | dereference text => text.length
  | fault count => count

end SigilChoice

theorem Reader.sigil_eq (reader : Reader) (sigil : Sigil) :
    reader.sigil sigil = (SigilChoice.of sigil ((reader.look 3).peek? 1)
      ((reader.look 3).peek? 2)).read reader sigil := by
  simp only [Reader.sigil, SigilChoice.of]
  generalize (reader.look 3).peek? 1 = next
  generalize (reader.look 3).peek? 2 = afterNext
  split
  · rfl
  · split
    · rfl
    · split
      · rfl
      · split
        · rfl
        · cases sigil with
          | scalar =>
            cases next with
            | none => rfl
            | some c =>
              simp only [SigilChoice.ofMark]
              split
              · rfl
              · split
                · rfl
                · split
                  · rfl
                  · rfl
          | array => rfl
          | hash => rfl

namespace SigilChoice

variable {sigil : Sigil} {next next' afterNext afterNext' : Option Char}

theorem span_le (sigil : Sigil) (next afterNext : Option Char) :
    (of sigil next afterNext).span ≤ 3 := by
  have mark (seen : Prop) [Decidable seen] : (if seen then 2 else 1) ≤ 3 := by split <;> decide
  unfold of ofMark
  repeat' split
  all_goals first | exact mark _ | simp [span]

theorem of_parted (parted : Parted afterNext) : of sigil next afterNext = of sigil next none := by
  have noColon := parted.ne (c := ':') (by decide)
  have noName : afterNext.any isNameStart = false := parted.any (by decide)
  have noSigil : afterNext.any (fun c => isNameStart c || c = '$' || c = '{') = false :=
    parted.any (by decide)
  have noBrace : afterNext.any (fun c => c = '{' || c = '$') = false := parted.any (by decide)
  have mark : ofMark afterNext sigil next = ofMark none sigil next := by
    cases sigil <;> cases next <;> simp only [ofMark, noName, noBrace, Option.any_none]
  simp only [of, mark, noColon, noSigil, Option.any_none, reduceCtorEq]

theorem ofMark_none (alone : (ofMark afterNext sigil next).alone = true)
    (short : (ofMark afterNext sigil next).span ≤ 2) :
    ofMark none sigil next = ofMark afterNext sigil next := by
  cases sigil with
  | array => rfl
  | hash => rfl
  | scalar =>
    cases next with
    | none => rfl
    | some c =>
      simp only [ofMark] at alone short ⊢
      split
      · rfl
      · next noMark =>
        rw [if_neg noMark] at alone short
        split at alone
        · next named =>
          rw [if_pos named] at short
          exact absurd (show 3 ≤ 2 from short) (by decide)
        · split at alone <;> contradiction

/-- Where two characters make a token that leans on nothing, a third one does not matter. -/
theorem of_none (alone : (of sigil next afterNext).alone = true)
    (short : (of sigil next afterNext).span ≤ 2) :
    of sigil next none = of sigil next afterNext := by
  rw [of, of]
  rw [of] at alone short
  split
  · rfl
  · next noName =>
    rw [if_neg noName] at alone short
    split at alone
    · next colons =>
      rw [if_pos colons] at short
      exact absurd (show 3 ≤ 2 from short) (by decide)
    · next noColons =>
      rw [if_neg noColons] at short
      split at alone
      · contradiction
      · next noOpener =>
        rw [if_neg noOpener] at short
        split at alone
        · contradiction
        · next noDollar =>
          rw [if_neg noDollar] at short
          have noDollar' : ¬(next = some '$' ∧ (sigil ≠ .scalar ∨ (none : Option Char).any
              (fun c => isNameStart c || c = '$' || c = '{') = true)) :=
            fun dollar => noDollar ⟨dollar.1, .inl (dollar.2.resolve_right nofun)⟩
          rw [if_neg fun colons => absurd colons.2 nofun, if_neg noOpener, if_neg noDollar',
            if_neg noColons, if_neg noOpener, if_neg noDollar, ofMark_none alone short]

/-! ## What a choice rests on -/

theorem next_of_name (chosen : of sigil next afterNext = .name) : next.any isNameStart = true := by
  unfold of ofMark at chosen
  repeat' split at chosen
  all_goals first | contradiction | assumption

theorem next_of_qualified (chosen : of sigil next afterNext = .qualified) :
    next = some ':' ∧ afterNext = some ':' := by
  unfold of ofMark at chosen
  repeat' split at chosen
  all_goals first | contradiction | assumption

theorem next_of_lastIndex (chosen : of sigil next afterNext = .lastIndex) :
    sigil = .scalar ∧ next = some '#' ∧ afterNext.any isNameStart = true := by
  unfold of ofMark at chosen
  repeat' split at chosen
  all_goals
    first | contradiction | (next named => exact ⟨rfl, congrArg some named.1, named.2⟩)

theorem next_of_special {c : Char} (chosen : of sigil next afterNext = .special c) :
    next = some c := by
  unfold of ofMark at chosen
  repeat' split at chosen
  all_goals first | contradiction | exact congrArg some (SigilChoice.special.inj chosen)

/-- A sigil dereferences what a bracket, a star or another sigil begins; for the last index of an
array the mark stands between. -/
theorem next_of_dereference (chosen : of sigil next afterNext = .dereference text) :
    text = [sigil.char] ∧ next.any (· ∈ ['*', '[', '{', '$']) = true ∨
      text = ['$', '#'] ∧ sigil = .scalar ∧ next = some '#' ∧
        afterNext.any (· ∈ ['{', '$']) = true := by
  unfold of ofMark at chosen
  repeat' split at chosen
  all_goals first | contradiction | skip
  · next opener =>
    refine .inl ⟨(SigilChoice.dereference.inj chosen).symm, ?_⟩
    obtain ⟨c, same, member⟩ := (Option.any_eq_true ..).mp opener
    rw [same, Option.any_some, decide_eq_true_eq]
    exact List.mem_append_left ['$'] (of_decide_eq_true member)
  · next dollar =>
    refine .inl ⟨(SigilChoice.dereference.inj chosen).symm, ?_⟩
    rw [dollar.1]
    rfl
  · next index =>
    exact .inr ⟨(SigilChoice.dereference.inj chosen).symm, rfl, congrArg some index.1,
      by simpa using index.2⟩

/-- What is no token is passed over alone, or with the mark behind it. -/
theorem next_of_fault {count : Nat} (chosen : of sigil next afterNext = .fault count) :
    count = 1 ∨ count = 2 ∧ next = some '#' := by
  unfold of ofMark at chosen
  repeat' split at chosen
  all_goals first | contradiction | obtain rfl := SigilChoice.fault.inj chosen
  · next mark => exact .inr ⟨rfl, congrArg some mark⟩
  · exact .inl rfl
  · next mark => exact .inr ⟨rfl, mark⟩
  · exact .inl rfl

theorem sigil_of_operator (chosen : of sigil next afterNext = .operator) : sigil = .hash := by
  unfold of ofMark at chosen
  repeat' split at chosen
  all_goals first | contradiction | rfl

/-- A sigil alone is an operator before a parting, if it is a token at all. -/
theorem of_next (alone : (of sigil next afterNext).alone = true)
    (short : (of sigil next afterNext).span ≤ 1) (parted : Parted next') :
    of sigil next' afterNext' = of sigil next afterNext := by
  have chosen : of sigil next afterNext = .operator := by
    generalize of sigil next afterNext = choice at alone short
    cases choice with
    | operator => rfl
    | name | special => exact absurd (show 2 ≤ 1 from short) (by decide)
    | qualified | lastIndex => exact absurd (show 3 ≤ 1 from short) (by decide)
    | dereference => contradiction
    | fault => contradiction
  obtain rfl := sigil_of_operator chosen
  have noName : next'.any isNameStart = false := parted.any (by decide)
  have noOpener : next'.any (· ∈ ['*', '[', '{']) = false := parted.any (by decide)
  have noColon := parted.ne (c := ':') (by decide)
  have noDollar := parted.ne (c := '$') (by decide)
  rw [chosen]
  simp only [of, noName, noOpener, noColon, noDollar, Bool.false_eq_true, false_and, ↓reduceIte]
  rfl

/-- A name goes one character at least behind its opening. -/
theorem length_named {reader : Reader} {opening behind : List Char} {c : Char}
    (comes : (reader.look 3).unread = opening ++ [c] ++ behind) (starts : isNameStart c = true) :
    ((reader.look 3).skip opening.length).name.2.unread.length + (opening.length + 1) ≤
      reader.unread.length := by
  have whole := congrArg List.length comes
  have unread : ((reader.look 3).skip opening.length).unread = c :: behind := by
    simp only [Reader.skip, comes, List.append_assoc, List.drop_left, List.singleton_append]
  have shorter := (Reader.advances_name unread starts).length_lt
  rw [unread, List.length_cons] at shorter
  simp only [Reader.look, List.length_append, List.length_singleton] at whole
  omega

/-- How far reading goes at least. -/
theorem length_of_read {choice : SigilChoice} {reader : Reader} {rest : List Char}
    (chosen : of sigil ((reader.look 3).peek? 1) ((reader.look 3).peek? 2) = choice)
    (alone : choice.alone = true) (starts : reader.unread = sigil.char :: rest) :
    (choice.read reader sigil).2.unread.length + choice.span ≤ reader.unread.length := by
  have one : (reader.look 3).unread = [sigil.char] ++ rest := starts
  cases choice with
  | dereference => contradiction
  | fault => contradiction
  | operator => exact Nat.succ_le_of_lt (Reader.advances_operator one).length_lt
  | name =>
    obtain ⟨c, peeked, isName⟩ := (Option.any_eq_true ..).mp (next_of_name chosen)
    obtain ⟨behind, comes⟩ := Reader.unread_of_peek one peeked
    exact length_named comes isName
  | qualified =>
    obtain ⟨first, second⟩ := next_of_qualified chosen
    obtain ⟨_, comes⟩ := Reader.unread_of_peek one first
    obtain ⟨behind, comes⟩ := Reader.unread_of_peek comes second
    have passed : _ ≤ (reader.unread.drop 3).length :=
      (Reader.passes_name ((reader.look 3).skip 3)).suffix.length_le
    have long := congrArg List.length comes
    simp only [Reader.look, List.length_append, List.length_singleton] at long
    rw [List.length_drop] at passed
    exact Nat.add_le_of_le_sub (show 3 ≤ _ by omega) passed
  | lastIndex =>
    obtain ⟨rfl, first, named⟩ := next_of_lastIndex chosen
    obtain ⟨c, second, isName⟩ := (Option.any_eq_true ..).mp named
    obtain ⟨_, comes⟩ := Reader.unread_of_peek one first
    obtain ⟨behind, comes⟩ := Reader.unread_of_peek comes second
    exact length_named (show _ = ['$', '#'] ++ [c] ++ behind from comes) isName
  | special c =>
    obtain ⟨behind, comes⟩ := Reader.unread_of_peek one (next_of_special chosen)
    have long := congrArg List.length comes
    simp only [Reader.look, List.length_append, List.length_singleton] at long
    have passed : ((special c).read reader sigil).2.unread.length ≤
        (reader.unread.drop 2).length := by
      simp only [read]
      split
      · exact (Reader.passes_run isDigitOrUnderscore ((reader.look 3).skip 2)).suffix.length_le
      · exact Nat.le_refl _
    rw [List.length_drop] at passed
    exact Nat.add_le_of_le_sub (show 2 ≤ _ by omega) passed

end SigilChoice

/-- Right behind a sigil that dereferences stands what it dereferences. -/
theorem Reader.leans_on {reader : Reader} {sigil : Sigil} {spelled : List Char}
    (chosen : SigilChoice.of sigil (reader.peek? 1) (reader.peek? 2) = .dereference spelled) :
    ∃ d ∈ ['*', '[', '{', '$'], reader.unread[spelled.length]? = some d := by
  obtain ⟨rfl, begins⟩ | ⟨rfl, -, -, begins⟩ := SigilChoice.next_of_dereference chosen
  · obtain ⟨d, there, member⟩ := (Option.any_eq_true ..).mp begins
    exact ⟨d, of_decide_eq_true member, there⟩
  · obtain ⟨d, there, member⟩ := (Option.any_eq_true ..).mp begins
    exact ⟨d, List.mem_append_right ['*', '['] (of_decide_eq_true member), there⟩

end SigilScript
