import SigilScript.Proofs.Scan.Exchange

/-! # Readers of texts that begin alike

Two readers stand at the same text up to an end in which their texts differ. A reading of the first
spares that end where it does not reach into it, if the other end begins with a parting, and where
it was never looked at, whatever the other end is. In both cases the second reader reads the same;
in the latter one reading costs the same, too.
-/

namespace SigilScript

namespace Reader

variable {exact : Bool} {rest rest' : List Char} {reader other between after : Reader}

/-! ## Looking and skipping -/

theorem look_look (first second : Nat) (reader : Reader) :
    (reader.look first).look second = reader.look (max first second) := by
  simp only [look, List.length_take, mk.injEq, true_and]
  refine ⟨by omega, ?_⟩
  rw [Bool.or_assoc, ← Bool.decide_or]
  congr 1
  exact decide_eq_decide.mpr (by omega)

theorem skip_skip (first second : Nat) (reader : Reader) :
    (reader.skip first).skip second = reader.skip (first + second) := by
  simp only [skip, List.drop_drop, mk.injEq, true_and, and_true, List.take_add,
    Position.after_append, List.length_append]
  exact ⟨Nat.add_assoc .., Nat.sub_sub ..⟩

/-- What is skipped need not have been looked at before. -/
theorem look_skip_look {first count second : Nat} (few : first ≤ count + second)
    (fits : count ≤ reader.unread.length) :
    ((reader.look first).skip count).look second = (reader.skip count).look second := by
  simp only [look, skip, List.length_take, List.length_drop, mk.injEq, true_and]
  refine ⟨by omega, ?_⟩
  rw [Bool.or_assoc, ← Bool.decide_or]
  congr 1
  exact decide_eq_decide.mpr (by omega)

/-- Whether the character that comes next was looked at. -/
def Peeked (reader : Reader) : Prop := reader.look 1 = reader

theorem peeked_look (count : Nat) (reader : Reader) : (reader.look (count + 1)).Peeked := by
  rw [Peeked, look_look]
  congr 1
  omega

/-- Read what a way of taking takes. -/
def takes (taking : Taking) (reader : Reader) : List Char × Reader :=
  let text := taking.take reader.unread
  let after := reader.skip text.length
  (text, after.look (taking.look text after.unread))

theorem skip_zero (reader : Reader) : reader.skip 0 = reader := rfl

/-! ## Optional parts of a number -/

/-- An optional part that has no opening. -/
theorem takes_part_absent {opening : Taking.Opening} (peeked : reader.Peeked)
    (absent : opening.text reader.unread = []) :
    reader.takes (.part opening) = ([], reader) := by
  have nothing : Taking.partText opening reader.unread = [] := if_pos (.inl absent)
  have look : Taking.partLook opening [] reader.unread = 1 := by
    rw [Taking.partLook, if_pos rfl, absent, List.length_nil]
  simp only [takes, Taking.part, nothing, List.length_nil, skip_zero, look, Prod.mk.injEq, true_and]
  exact peeked

/-- An optional part behind an opening. -/
theorem takes_part {opening : Taking.Opening} {text : List Char}
    (opens : opening.text reader.unread = text) (there : text ≠ []) :
    reader.takes (.part opening) =
      if (reader.peek? text.length).any Char.isDigit then
        (text ++ (((reader.look (text.length + 1)).skip text.length).run isDigitOrUnderscore).1,
          (((reader.look (text.length + 1)).skip text.length).run isDigitOrUnderscore).2)
      else ([], reader.look (text.length + 1)) := by
  have head : (reader.unread.drop text.length).head? = reader.peek? text.length := List.head?_drop
  have fits := (Taking.partText_begins opening reader.unread).length_le
  by_cases digit : (reader.peek? text.length).any Char.isDigit = true
  · have digits : Taking.digitsText (reader.unread.drop text.length) =
        (reader.unread.drop text.length).takeWhile isDigitOrUnderscore := by
      rw [Taking.digitsText, head, if_pos digit]
    have some : Taking.digitsText (reader.unread.drop text.length) ≠ [] := by
      obtain ⟨c, next, isDigit⟩ := (Option.any_eq_true ..).mp digit
      obtain ⟨more, behind⟩ := List.head?_eq_some_iff.mp (head.trans next)
      rw [digits, behind, List.takeWhile_cons_of_pos (isDigitOrUnderscore_of_isDigit isDigit)]
      exact List.cons_ne_nil _ _
    have whole : Taking.partText opening reader.unread =
        text ++ (reader.unread.drop text.length).takeWhile isDigitOrUnderscore := by
      rw [Taking.partText, opens, if_neg (not_or.mpr ⟨there, some⟩), digits]
    have look (behind : List Char) : Taking.partLook opening
        (text ++ (reader.unread.drop text.length).takeWhile isDigitOrUnderscore) behind = 1 :=
      if_neg (List.append_ne_nil_of_left_ne_nil there _)
    rw [whole, List.length_append] at fits
    simp only [takes, Taking.part, whole, look, if_pos digit, run, Prod.mk.injEq]
    refine ⟨rfl, ?_⟩
    rw [skip_skip, List.length_append]
    exact (look_skip_look (by omega) fits).symm
  · have nothing : Taking.digitsText (reader.unread.drop text.length) = [] := by
      rw [Taking.digitsText, head, if_neg digit]
    have absent : Taking.partText opening reader.unread = [] := by
      rw [Taking.partText, opens, if_pos (.inr nothing)]
    have look : Taking.partLook opening [] reader.unread = text.length + 1 := by
      rw [Taking.partLook, if_pos rfl, opens]
    simp only [takes, Taking.part, absent, List.length_nil, skip_zero, look, if_neg digit]

theorem fraction_eq (peeked : reader.Peeked) :
    reader.fraction = reader.takes (.part Taking.fractionOpening) := by
  have head : reader.unread.head? = reader.peek? 0 := List.head?_eq_getElem?
  by_cases dot : reader.peek? 0 = some '.'
  · have opens : Taking.fractionOpening.text reader.unread = ['.'] := if_pos (head.trans dot)
    rw [takes_part opens (List.cons_ne_nil _ _)]
    simp only [fraction, if_pos dot]
    rfl
  · rw [takes_part_absent peeked (if_neg (head ▸ dot)), fraction, if_neg dot]

theorem peeked_fraction (peeked : reader.Peeked) : reader.fraction.2.Peeked := by
  rw [fraction_eq peeked]
  simp only [takes, Taking.part, Taking.partLook]
  split
  · exact peeked_look _ _
  · exact peeked_look 0 _

theorem exponent_eq (peeked : reader.Peeked) :
    reader.exponent = reader.takes (.part Taking.exponentOpening) := by
  rcases unread : reader.unread with _ | ⟨letter, rest⟩
  · have absent : Taking.exponentOpening.text reader.unread = [] := by rw [unread]; rfl
    rw [takes_part_absent peeked absent]
    simp only [exponent, unread]
  · by_cases opens : (letter = 'e' || letter = 'E') = true
    · have opening : Taking.exponentOpening.text reader.unread = letter :: signText rest := by
        rw [unread]
        exact if_pos opens
      rw [takes_part opening (List.cons_ne_nil _ _)]
      simp only [exponent, unread, if_pos opens]
      rfl
    · have absent : Taking.exponentOpening.text reader.unread = [] := by
        rw [unread]
        exact if_neg opens
      rw [takes_part_absent peeked absent]
      simp only [exponent, unread, if_neg opens]

/-! ## Twins -/

/-- Whether reading so far spares the end `rest` of a text, in whose place `rest'` stands in another
one: it does not reach into the end, where the other end is parted from what stands before; or,
whatever the other end is, nothing of the end was pulled. -/
inductive Spares (rest rest' : List Char) : Bool → Reader → Prop where
  | parted {after : Reader} (parts : Parts rest') (within : rest.length ≤ after.unread.length) :
    Spares rest rest' false after
  | unseen {after : Reader} (unended : after.ended = false)
    (within : after.ahead + rest.length ≤ after.unread.length) : Spares rest rest' true after

namespace Spares

theorem within (spares : after.Spares rest rest' exact) :
    rest.length ≤ after.unread.length := by
  cases spares with
  | parted _ within => exact within
  | unseen _ within => omega

/-- What reading spares it spared before. -/
theorem before (spares : after.Spares rest rest' exact) (leads : between.Leads after) :
    between.Spares rest rest' exact := by
  cases spares with
  | parted parts within => exact .parted parts (within.trans leads.suffix.length_le)
  | unseen unended within =>
    obtain ⟨unended, drawn⟩ := leads.drawn unended
    exact .unseen unended (by omega)

/-- Where the end is not to be seen, everything looked at stands before it. -/
theorem looked {count : Nat} (spares : (reader.look count).Spares rest rest' exact) :
    Parts rest' ∧ exact = false ∨ count + rest.length ≤ reader.unread.length := by
  cases spares with
  | parted parts _ => exact .inl ⟨parts, rfl⟩
  | unseen unended within =>
    refine .inr ?_
    simp only [look, Bool.or_eq_false_iff, decide_eq_false_iff_not,
      List.length_take] at unended within
    omega

end Spares

/-- Two readers whose texts differ in their ends alone. Where the ends are not to be seen, reading
has led both to the same place at the same cost. -/
structure Twin (exact : Bool) (rest rest' : List Char) (reader other : Reader) : Prop where
  text : ∃ front, reader.unread = front ++ rest ∧ other.unread = front ++ rest'
  cost : exact = true → other = { reader with unread := other.unread }

/-- Whether one reader reads what the other one does, as far as the reading spares the end. -/
def Reads (exact : Bool) (rest rest' : List Char) (reading other : List Char × Reader) : Prop :=
  reading.2.Spares rest rest' exact →
    other.1 = reading.1 ∧ Twin exact rest rest' reading.2 other.2

namespace Twin

/-! What does not depend on the unread text is the same where the ends are not to be seen. -/

theorem position (twin : Twin true rest rest' reader other) : other.position = reader.position := by
  rw [twin.cost rfl]

theorem consumed (twin : Twin true rest rest' reader other) : other.consumed = reader.consumed := by
  rw [twin.cost rfl]

theorem ahead (twin : Twin true rest rest' reader other) : other.ahead = reader.ahead := by
  rw [twin.cost rfl]

theorem ended (twin : Twin true rest rest' reader other) : other.ended = reader.ended := by
  rw [twin.cost rfl]

variable (twin : Twin exact rest rest' reader other)
include twin

theorem take {count : Nat} (inside : count + rest.length ≤ reader.unread.length) :
    other.unread.take count = reader.unread.take count := by
  obtain ⟨front, unread, unread'⟩ := twin.text
  rw [unread, List.length_append] at inside
  have fits : count ≤ front.length := by omega
  rw [unread, unread', List.take_append_of_le_length fits, List.take_append_of_le_length fits]

theorem skip {count : Nat} (inside : count + rest.length ≤ reader.unread.length) :
    Twin exact rest rest' (reader.skip count) (other.skip count) where
  text := by
    obtain ⟨front, unread, unread'⟩ := twin.text
    rw [unread, List.length_append] at inside
    have fits : count ≤ front.length := by omega
    refine ⟨front.drop count, ?_, ?_⟩
    · simp only [Reader.skip, unread, List.drop_append_of_le_length fits]
    · simp only [Reader.skip, unread', List.drop_append_of_le_length fits]
  cost unseen := by
    have same := twin.take inside
    rw [twin.cost unseen] at same ⊢
    simp only [Reader.skip, same]

theorem look {count count' : Nat}
    (inside : exact = true → count' = count ∧ count + rest.length ≤ reader.unread.length) :
    Twin exact rest rest' (reader.look count) (other.look count') where
  text := twin.text
  cost unseen := by
    obtain ⟨rfl, inside⟩ := inside unseen
    have same := twin.take inside
    rw [twin.cost unseen] at same ⊢
    simp only [Reader.look, same]

/-- Looking ahead leads to twins again, as far as the end is spared. -/
theorem looked {count : Nat} (spares : (reader.look count).Spares rest rest' exact) :
    Twin exact rest rest' (reader.look count) (other.look count) :=
  twin.look fun unseen =>
    ⟨rfl, spares.looked.resolve_left fun parted => absurd (unseen.symm.trans parted.2) nofun⟩

theorem peek? {offset : Nat} (inside : offset + rest.length < reader.unread.length) :
    other.peek? offset = reader.peek? offset := by
  obtain ⟨front, unread, unread'⟩ := twin.text
  rw [unread, List.length_append] at inside
  have fits : offset < front.length := by omega
  rw [Reader.peek?, Reader.peek?, unread, unread', List.getElem?_append_left fits,
    List.getElem?_append_left fits]

/-- Right before the end nothing but a parting is seen. -/
theorem parted_peek? (parts : Parts rest') {offset : Nat}
    (ends : reader.unread.length = offset + rest.length) : Parted (other.peek? offset) := by
  obtain ⟨front, unread, unread'⟩ := twin.text
  rw [unread, List.length_append] at ends
  obtain rfl : front.length = offset := by omega
  rwa [Reader.peek?, unread', List.getElem?_append_right (Nat.le_refl _), Nat.sub_self,
    ← List.head?_eq_getElem?]

theorem takes {taking : Taking} (isLocal : taking.Local) :
    Reads exact rest rest' (reader.takes taking) (other.takes taking) := by
  intro spares
  obtain ⟨front, unread, unread'⟩ := twin.text
  have fits := (taking.begins reader.unread).length_le
  have within := spares.within
  have stops := spares.looked
  simp only [Reader.takes, Reader.look, Reader.skip, List.length_drop] at within stops
  have inside : (taking.take reader.unread).length + rest.length ≤ reader.unread.length := by omega
  have skipped := twin.skip inside
  rw [unread, List.length_append] at within stops inside
  have same : taking.take other.unread = taking.take reader.unread := by
    rw [unread, unread']
    exact isLocal.take (by omega) (stops.imp And.left fun seen => by omega)
  refine ⟨same, ?_⟩
  simp only [Reader.takes, same]
  refine skipped.look fun unseen => ?_
  have seen := stops.resolve_left fun parted =>
      Bool.false_ne_true (unseen.symm.trans parted.2).symm
  have behind (text : List Char) : (front ++ text).drop (taking.take (front ++ rest)).length =
      front.drop (taking.take (front ++ rest)).length ++ text :=
    List.drop_append_of_le_length (by omega)
  simp only [Reader.skip, unread, unread', behind] at seen ⊢
  refine ⟨isLocal.look _ ?_, ?_⟩
  · rw [List.length_drop]
    omega
  · rw [List.length_append, List.length_drop]
    omega

theorem run {accepts : Char → Bool} (rejects : RejectsPartings accepts) :
    Reads exact rest rest' (reader.run accepts) (other.run accepts) :=
  twin.takes (Taking.local_run rejects)

theorem name : Reads exact rest rest' reader.name other.name := twin.takes Taking.local_name

theorem versionParts : Reads exact rest rest' reader.versionParts other.versionParts :=
  twin.takes Taking.local_versionParts

theorem fraction (peeked : reader.Peeked) (peeked' : other.Peeked) :
    Reads exact rest rest' reader.fraction other.fraction := by
  rw [fraction_eq peeked, fraction_eq peeked']
  exact twin.takes (Taking.local_part _)

theorem exponent (peeked : reader.Peeked) (peeked' : other.Peeked) :
    Reads exact rest rest' reader.exponent other.exponent := by
  rw [exponent_eq peeked, exponent_eq peeked']
  exact twin.takes (Taking.local_part _)

omit twin in
/-- Where a number has a radix, its letter is read. -/
theorem inside_radix (opens : opensRadix reader.unread = true)
    (spares : reader.number.2.Spares rest rest' exact) :
    2 + rest.length ≤ reader.unread.length := by
  obtain ⟨more, next, two⟩ := opensRadix_cons opens
  have long := congrArg List.length next
  rw [List.length_append, two] at long
  have zero : reader.peek? 0 = some '0' := by
    obtain ⟨c, text, unread⟩ : ∃ c text, reader.unread = c :: text :=
      List.exists_cons_of_length_pos (by omega)
    rw [Reader.peek?, unread]
    by_contra other
    rw [unread, Taking.opensRadix_other (other <| congrArg some ·)] at opens
    contradiction
  simp only [Reader.number, if_pos opens, if_pos zero] at spares
  have within := (spares.before (Steps.run .refl isRadixDigit).leads).within
  simp only [Reader.skip, Reader.look, List.length_drop] at within
  omega

theorem number (inside : rest.length < reader.unread.length) :
    Reads exact rest rest' reader.number other.number := by
  intro spares
  have kept := spares.before reader.steps_number_look.leads
  have first : other.peek? 0 = reader.peek? 0 := twin.peek? (by omega)
  have radix : opensRadix other.unread = opensRadix reader.unread := by
    have within (opens : opensRadix reader.unread = true) := inside_radix opens spares
    obtain ⟨front, unread, unread'⟩ := twin.text
    rw [unread, List.length_append] at inside within
    rw [unread, unread']
    refine Taking.opensRadix_exchange (List.ne_nil_of_length_pos (by omega))
      (fun opens => by have := within opens; omega) ?_
    split at kept
    · refine kept.looked.imp And.left fun seen => .inr ?_
      rw [unread, List.length_append] at seen
      omega
    · next other =>
      refine .inr (.inl ?_)
      rcases front with _ | ⟨c, front⟩
      · nofun
      · rwa [Reader.peek?, unread] at other
  have looked : Twin exact rest rest'
      (if reader.peek? 0 = some '0' then reader.look 2 else reader)
      (if other.peek? 0 = some '0' then other.look 2 else other) := by
    rw [first]
    split at kept
    · next zero =>
      rw [if_pos zero, if_pos zero]
      exact twin.looked kept
    · next other => rwa [if_neg other, if_neg other]
  by_cases opens : opensRadix reader.unread = true
  · have two := inside_radix opens spares
    have same := reader.unread_lookRadix
    rw [← same] at two
    simp only [Reader.number, radix, if_pos opens] at spares ⊢
    have digits := (looked.skip two).run (by decide) spares
    rw [same] at two
    exact ⟨by rw [twin.take two, digits.1], digits.2⟩
  · simp only [Reader.number, radix, if_neg opens] at spares ⊢
    have afterFraction := spares.before (steps_exponent _).leads
    have whole := looked.run (by decide) (afterFraction.before (steps_fraction _).leads)
    have fraction := whole.2.fraction (peeked_look 0 _) (peeked_look 0 _) afterFraction
    have exponent := fraction.2.exponent (peeked_fraction (peeked_look 0 _))
      (peeked_fraction (peeked_look 0 _)) spares
    refine ⟨?_, exponent.2⟩
    rw [whole.1, fraction.1, exponent.1]

end Twin

end Reader

end SigilScript
