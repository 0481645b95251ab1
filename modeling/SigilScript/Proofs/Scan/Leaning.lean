import SigilScript.Proofs.Scan.Items

/-! # Tokens that lean on what follows

A sigil that dereferences is told by what stands right behind it, and by one character more where
that is another sigil. What it leans on begins the next token, so there is one.
-/

namespace SigilScript

/-- Whether an item is a token that leans on the one behind it. -/
def leansItem : Scanned → Bool
  | .ok token => token.kind.leans
  | .error _ => false

/-- Two texts that begin alike, as far as a sigil that leans on them looks. -/
structure BeginAlike (text other : List Char) : Prop where
  first : other[0]? = text[0]?
  second : text[0]? = some '$' → other[1]? = text[1]?

/-! ## What a sigil leans on -/

namespace SigilChoice

variable {sigil : Sigil} {next afterNext : Option Char} {text : List Char}

/-- Where no other sigil stands behind a sigil, what dereferences is told without a second
character. -/
theorem of_dereference_other (chosen : of sigil next afterNext = .dereference [sigil.char])
    (other : next ≠ some '$') (afterNext' : Option Char) :
    of sigil next afterNext' = .dereference [sigil.char] := by
  obtain ⟨-, begins⟩ | ⟨two, -⟩ := next_of_dereference chosen
  · obtain ⟨c, rfl, member⟩ := (Option.any_eq_true ..).mp begins
    have openers : ∀ c ∈ ['*', '[', '{'], isNameStart c = false ∧ c ≠ ':' :=
      List.all_iff_forall_prop.mp (by decide)
    have opener : c ∈ ['*', '[', '{'] := by
      have either : c ∈ ['*', '[', '{'] ++ ['$'] := of_decide_eq_true member
      rcases List.mem_append.mp either with opener | dollar
      · exact opener
      · exact absurd (congrArg some (List.mem_singleton.mp dollar)) other
    obtain ⟨noName, noColon⟩ := openers c opener
    simp only [of, Option.any_some, noName, Bool.false_eq_true, if_false, Option.some.injEq,
      noColon, false_and, decide_eq_true opener, if_true]
  · simp at two

/-- What dereferences does so again before what begins alike. -/
theorem of_dereference {next' afterNext' : Option Char}
    (chosen : of sigil next afterNext = .dereference text) (first : next' = next)
    (second : next ∈ [some '$', some '#'] → afterNext' = afterNext) :
    of sigil next' afterNext' = .dereference text := by
  subst first
  by_cases told : next' ∈ [some '$', some '#']
  · rw [second told, chosen]
  · obtain ⟨rfl, -⟩ | ⟨-, -, mark, -⟩ := next_of_dereference chosen
    · exact of_dereference_other chosen (fun dollar => told (dollar ▸ List.mem_cons_self)) _
    · exact absurd (mark ▸ List.mem_cons_of_mem _ List.mem_cons_self) told

end SigilChoice

namespace Reader

variable {reader : Reader}

/-! ## What leans -/

theorem leans_operator (reader : Reader) : leansItem reader.operator.1 = false := by
  simp only [operator]
  split
  · simp only [TokenKind.ofOperator]
    split <;> rfl
  · rfl

theorem leans_literal {opened : Reader} {cause : ScanCause} {body : Option Body}
    {scanned : List Char → Reader → Reading}
    (leans : ∀ text after, leansItem (scanned text after).1 = false) :
    leansItem (reader.literal opened cause body scanned).1 = false := by
  cases body with
  | none => rfl
  | some body => exact leans _ _

theorem leans_word {previous : Option Category} {reading : Reading}
    (read : reader.word previous = some reading) : leansItem reading.1 = false := by
  cases word_cases read with
  | string | words | pattern => exact leans_literal fun _ _ => rfl
  | plain =>
    simp only [word.plainWord]
    split <;> rfl

/-- Nothing but a sigil leans, and a sigil is read as one before any text. -/
theorem sigil_of_leans {context : Context} {c : Char} {reading : Reading}
    (read : reader.scan context c = some reading) (leans : leansItem reading.1 = true) :
    ∃ sigil : Sigil, c = sigil.char ∧ reading = reader.sigil sigil ∧
      ∀ other : Reader, other.scan context c = some (other.sigil sigil) := by
  have never {reading' : Reading} (same : some reading' = some reading)
      (alone : leansItem reading'.1 = false) : False := by
    rw [Option.some.inj same, leans] at alone
    contradiction
  simp only [scan] at read
  split at read
  · exact (never read rfl).elim
  · next noDigit =>
    split at read
    · exact (never read (leans_literal fun _ _ => rfl)).elim
    · next noQuote =>
      split at read
      · rw [leans_word read] at leans
        contradiction
      · next noName =>
        -- A sigil is told by the character and the context alone.
        have dispatch (other : Reader) : other.scan context c =
            if c = '$' then some (other.sigil .scalar)
            else if c = '@' then some (other.sigil .array)
            else if context.afterOperand then some other.operator
            else if c = '.' then some (if ((other.look 2).peek? 1).any Char.isDigit then
              (other.look 2).numberToken else (other.look 2).operator)
            else if c = '%' then some (other.sigil .hash)
            else if c = '/' then some (pattern other (other.skip 1) '/')
            else some other.operator := by
          rw [scan, if_neg noDigit, if_neg noQuote, if_neg noName]
        split at read
        · next dollar =>
          refine ⟨.scalar, dollar, (Option.some.inj read).symm, fun other => ?_⟩
          rw [dispatch, if_pos dollar]
        · next noDollar =>
          split at read
          · next atSign =>
            refine ⟨.array, atSign, (Option.some.inj read).symm, fun other => ?_⟩
            rw [dispatch, if_neg noDollar, if_pos atSign]
          · next noAt =>
            split at read
            · exact (never read (leans_operator _)).elim
            · next noOperand =>
              split at read
              · refine (never read ?_).elim
                split
                · rfl
                · exact leans_operator _
              · next noDot =>
                split at read
                · next percent =>
                  refine ⟨.hash, percent, (Option.some.inj read).symm, fun other => ?_⟩
                  rw [dispatch, if_neg noDollar, if_neg noAt, if_neg noOperand, if_neg noDot,
                    if_pos percent]
                · split at read
                  · exact (never read (leans_literal fun _ _ => rfl)).elim
                  · exact (never read (leans_operator _)).elim

/-- What was chosen to dereference is its spelling. -/
theorem sigil_of_dereference {sigil : Sigil} {text : List Char}
    (chosen : SigilChoice.of sigil (reader.peek? 1) (reader.peek? 2) = .dereference text) :
    reader.sigil sigil =
      (reader.token (.derefSigil sigil) text, (reader.look 3).skip text.length) := by
  have chosen : SigilChoice.of sigil ((reader.look 3).peek? 1) ((reader.look 3).peek? 2) =
    .dereference text := chosen
  rw [sigil_eq, chosen]
  rfl

/-- What leans is a sigil that was chosen to dereference. -/
theorem dereference_of_leans {sigil : Sigil} (leans : leansItem (reader.sigil sigil).1 = true) :
    ∃ text, SigilChoice.of sigil (reader.peek? 1) (reader.peek? 2) = .dereference text := by
  rw [sigil_eq] at leans
  generalize chosen : SigilChoice.of sigil ((reader.look 3).peek? 1) ((reader.look 3).peek? 2) =
    choice at leans
  cases choice with
  | dereference text => exact ⟨text, chosen⟩
  | name | qualified | lastIndex | fault => contradiction
  | special c =>
    simp only [SigilChoice.read] at leans
    split at leans <;> contradiction
  | operator =>
    rw [SigilChoice.read, leans_operator] at leans
    contradiction

variable {text rest : List Char}

/-- A token that leans is as long as its spelling. -/
theorem length_dereference {sigil : Sigil} {spelled : List Char}
    (chosen : SigilChoice.of sigil (reader.peek? 1) (reader.peek? 2) = .dereference spelled)
    (unread : reader.unread = text ++ rest) (behind : reader.unread.drop spelled.length = rest) :
    text.length = spelled.length := by
  obtain ⟨d, -, there⟩ := leans_on chosen
  have inside := (List.getElem?_eq_some_iff.mp there).1
  have length := congrArg List.length behind
  rw [List.length_drop] at length
  rw [unread, List.length_append] at length inside
  omega

/-- What dereferences does so again before a text that begins like the one it leaned on. -/
theorem dereference_again {other : Reader} {sigil : Sigil} {spelled rest' : List Char}
    (chosen : SigilChoice.of sigil (reader.peek? 1) (reader.peek? 2) = .dereference spelled)
    (long : text.length = spelled.length) (unread : reader.unread = text ++ rest)
    (unread' : other.unread = text ++ rest') (alike : BeginAlike rest rest') :
    SigilChoice.of sigil (other.peek? 1) (other.peek? 2) = .dereference spelled := by
  have behind (offset : Nat) : reader.peek? (text.length + offset) = rest[offset]? := by
    rw [peek?, unread, List.getElem?_append_right (Nat.le_add_right ..), Nat.add_sub_cancel_left]
  have behind' (offset : Nat) : other.peek? (text.length + offset) = rest'[offset]? := by
    rw [peek?, unread', List.getElem?_append_right (Nat.le_add_right ..), Nat.add_sub_cancel_left]
  obtain ⟨same, begins⟩ | ⟨same, -, mark, -⟩ := SigilChoice.next_of_dereference chosen
  · have one : text.length = 1 := by rw [long, same]; rfl
    rw [one] at behind behind'
    refine SigilChoice.of_dereference chosen
      ((behind' 0).trans (alike.first.trans (behind 0).symm)) ?_
    intro told
    refine (behind' 1).trans ((alike.second ?_).trans (behind 1).symm)
    rw [← behind 0]
    rcases List.mem_cons.mp told with dollar | hash
    · exact dollar
    · rw [List.mem_singleton.mp hash] at begins
      contradiction
  · have two : text.length = 2 := by rw [long, same]; rfl
    have inside : reader.peek? 1 = text[1]? := by
      rw [peek?, unread, List.getElem?_append_left (by omega)]
    have inside' : other.peek? 1 = text[1]? := by
      rw [peek?, unread', List.getElem?_append_left (by omega)]
    rw [two] at behind behind'
    exact SigilChoice.of_dereference chosen (inside'.trans inside.symm) fun _ =>
      (behind' 0).trans (alike.first.trans (behind 0).symm)

/-- A token that leans, read again before a text that begins like the one it leaned on. -/
theorem leans_again {other : Reader} {context : Context} {c : Char} {token : Token} {after : Reader}
    {rest' : List Char} (read : reader.scan context c = some (.ok token, after))
    (leans : token.kind.leans = true) (unread : reader.unread = text ++ rest)
    (behind : after.unread = rest) (unread' : other.unread = text ++ rest')
    (alike : BeginAlike rest rest') :
    ∃ (item : Scanned) (after' : Reader), other.scan context c = some (item, after') ∧
      gistOf item = gistOf (.ok token) ∧ after'.unread = rest' := by
  obtain ⟨sigil, rfl, same, dispatch⟩ := sigil_of_leans read leans
  have leans' : leansItem (reader.sigil sigil).1 = true := by
    rw [← same]
    exact leans
  obtain ⟨spelled, chosen⟩ := dereference_of_leans leans'
  rw [sigil_of_dereference chosen] at same
  obtain ⟨isToken, rfl⟩ := Prod.mk.inj same
  have long := length_dereference chosen unread behind
  have again := dereference_again chosen long unread unread' alike
  refine ⟨other.token (.derefSigil sigil) spelled, (other.look 3).skip spelled.length, ?_, ?_, ?_⟩
  · rw [dispatch, sigil_of_dereference again]
  · rw [isToken]
    rfl
  · simp only [skip, look, unread', ← long, List.drop_left]

/-- What stands behind a token that leans begins another token, and no gap. -/
theorem unread_of_leans {context : Context} {c : Char} {token : Token} {after : Reader}
    (read : reader.scan context c = some (.ok token, after)) (leans : token.kind.leans = true) :
    ∃ (d : Char) (more : List Char), after.unread = d :: more ∧ d ∈ ['*', '[', '{', '$'] := by
  obtain ⟨sigil, rfl, same, -⟩ := sigil_of_leans read leans
  have leans' : leansItem (reader.sigil sigil).1 = true := by
    rw [← same]
    exact leans
  obtain ⟨spelled, chosen⟩ := dereference_of_leans leans'
  rw [sigil_of_dereference chosen] at same
  obtain ⟨-, rfl⟩ := Prod.mk.inj same
  obtain ⟨d, member, there⟩ := leans_on chosen
  rw [← List.head?_drop] at there
  obtain ⟨more, behind⟩ := List.head?_eq_some_iff.mp there
  exact ⟨d, more, behind, member⟩

/-- A scalar sigil alone is a token that leans. -/
theorem leans_of_dollar {context : Context} {token : Token} {after : Reader}
    (unread : reader.unread = '$' :: after.unread)
    (read : reader.scan context '$' = some (.ok token, after)) : token.kind.leans = true := by
  have same : reader.sigil .scalar = (.ok token, after) := Option.some.inj read
  rw [sigil_eq] at same
  generalize chosen : SigilChoice.of .scalar ((reader.look 3).peek? 1) ((reader.look 3).peek? 2) =
    choice at same
  cases alone : choice.alone with
  | true =>
    have long := SigilChoice.length_of_read chosen alone unread
    rw [same, unread, List.length_cons] at long
    cases choice with
    | dereference | fault => contradiction
    | operator => exact absurd (SigilChoice.sigil_of_operator chosen) (by decide)
    | name | special => exact absurd long (by simp [SigilChoice.span])
    | qualified | lastIndex => exact absurd long (by simp [SigilChoice.span])
  | false =>
    cases choice with
    | dereference text =>
      obtain rfl := Except.ok.inj (congrArg Prod.fst same)
      rfl
    | fault => simp [SigilChoice.read, fault] at same
    | name | qualified | lastIndex | special | operator => contradiction

end Reader

end SigilScript
