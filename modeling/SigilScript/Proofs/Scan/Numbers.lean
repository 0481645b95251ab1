import Mathlib.Computability.Language
import Mathlib.Data.List.TakeWhile
import SigilScript.Proofs.Scan.Calls
import SigilScript.Proofs.Scan.Twins

/-! # Numbers by longest match

The spellings of numbers are a regular language: digits, a fraction and an exponent, each of which
may be missing, or a zero, the letter of a radix and its digits. A number takes its parts one after
the other, each as far as it goes. Where it could have taken less of one, that part itself goes on,
with characters with which none of the later parts begins; so what it takes is the longest prefix
that spells a number, and nothing of a part that is not there in full.
-/

namespace SigilScript

/-! ## Spellings of numbers -/

/-- A digit, and any digits and underscores behind it. -/
def digitRun : Language Char :=
  {text | ∃ c rest, text = c :: rest ∧ c.isDigit = true ∧ ∀ d ∈ rest, isDigitOrUnderscore d = true}

/-- A part that may be missing: an opening with a run of digits behind it. -/
def optionalPart (openings : Language Char) : Language Char := 1 + openings * digitRun

/-- The letter of an exponent and its sign, if it has one. -/
def exponentOpenings : Language Char := {['e'], ['E']} * {[], ['+'], ['-']}

/-- Digits, a fraction and an exponent. -/
def plainNumbers : Language Char :=
  optionalPart 1 * (optionalPart {['.']} * optionalPart exponentOpenings)

/-- A zero, the letter of a radix, and digits of whatever radix with underscores. -/
def radixNumbers : Language Char :=
  {text | ∃ letter digits, text = '0' :: letter :: digits ∧ letter ∈ ['x', 'X', 'b', 'B'] ∧
    ∀ d ∈ digits, isRadixDigit d = true}

/-- How a number may be spelled that begins a text. -/
def numbersAt (unread : List Char) : Language Char :=
  if Reader.opensRadix unread then radixNumbers else plainNumbers

/-- Whether a text is the longest prefix of another in a language. -/
structure LongestPrefix (language : Language Char) (text unread : List Char) : Prop where
  member : text ∈ language
  begins : text <+: unread
  longest : ∀ other ∈ language, other <+: unread → other.length ≤ text.length

/-! ## Parts that are taken as far as they go -/

/-- Whether the longest prefix in a language is taken, and behind any shorter one the text goes
on. -/
structure Greedy (language : Language Char) (goesOn : List Char → Prop)
    (taken unread : List Char) : Prop where
  member : taken ∈ language
  begins : taken <+: unread
  shorter : ∀ other ∈ language, ∀ rest, other ++ rest = unread →
    other = taken ∨ other.length < taken.length ∧ goesOn rest

variable {language more : Language Char} {goesOn goesOn' : List Char → Prop}
  {taken further text unread rest : List Char}

theorem Greedy.longest (greedy : Greedy language goesOn taken unread) :
    LongestPrefix language taken unread where
  member := greedy.member
  begins := greedy.begins
  longest := by
    rintro other member ⟨rest, split⟩
    rcases greedy.shorter other member rest split with rfl | ⟨short, -⟩
    · exact Nat.le_refl _
    · exact Nat.le_of_lt short

theorem Greedy.imp (greedy : Greedy language goesOn taken unread)
    (weaker : ∀ rest, goesOn rest → goesOn' rest) : Greedy language goesOn' taken unread where
  member := greedy.member
  begins := greedy.begins
  shorter other member rest split :=
    (greedy.shorter other member rest split).imp_right (And.imp_right (weaker rest))

/-- What is taken in two parts is taken as far as it goes, if the first part does not go on with
what spells the second. -/
theorem Greedy.append (first : Greedy language goesOn taken unread)
    (second : Greedy more goesOn' further (unread.drop taken.length))
    (apart : ∀ part ∈ more, part ≠ [] → ∀ rest, ¬ goesOn (part ++ rest)) :
    Greedy (language * more) (fun rest => goesOn rest ∨ goesOn' rest) (taken ++ further)
      unread := by
  obtain ⟨behind, rfl⟩ := first.begins
  rw [List.drop_left] at second
  refine ⟨Language.append_mem_mul first.member second.member,
    (List.prefix_append_right_inj taken).mpr second.begins, ?_⟩
  intro other member rest split
  obtain ⟨front, isFirst, back, isSecond, rfl⟩ := Language.mem_mul.mp member
  rw [List.append_assoc] at split
  rcases first.shorter front isFirst (back ++ rest) split with rfl | ⟨short, further⟩
  · rcases second.shorter back isSecond rest (List.append_cancel_left split) with
      rfl | ⟨short, further⟩
    · exact .inl rfl
    · exact .inr ⟨by simpa using short, .inr further⟩
  · -- The first part is too short, so the second is empty.
    obtain rfl : back = [] := by
      by_contra nonempty
      exact apart back isSecond nonempty rest further
    refine .inr ⟨?_, .inl further⟩
    rw [List.append_nil, List.length_append]
    omega

/-! ## Digits -/

/-- A text of accepted characters that comes next is taken with the run, or with a shorter one. -/
theorem shorter_takeWhile {accepts : Char → Bool} (accepted : ∀ c ∈ text, accepts c = true)
    (rest : List Char) :
    text = (text ++ rest).takeWhile accepts ∨
      text.length < ((text ++ rest).takeWhile accepts).length ∧ rest.head?.any accepts = true := by
  rw [List.takeWhile_append_of_pos accepted]
  cases rest with
  | nil => exact .inl (List.append_nil text).symm
  | cons c rest =>
    by_cases more : accepts c = true
    · refine .inr ⟨?_, more⟩
      rw [List.takeWhile_cons_of_pos more, List.length_append, List.length_cons]
      omega
    · rw [List.takeWhile_cons_of_neg more, List.append_nil]
      exact .inl rfl

theorem accepted_of_digitRun (digits : text ∈ digitRun) :
    ∀ c ∈ text, isDigitOrUnderscore c = true := by
  obtain ⟨c, rest, rfl, digit, accepted⟩ := digits
  exact List.forall_mem_cons.mpr ⟨isDigitOrUnderscore_of_isDigit digit, accepted⟩

theorem digitsText_cases (unread : List Char) :
    Taking.digitsText unread = [] ∨ Taking.digitsText unread ∈ digitRun := by
  cases unread with
  | nil => exact .inl rfl
  | cons c rest =>
    rw [Taking.digitsText, List.head?_cons, Option.any_some]
    split
    · next digit =>
      right
      rw [List.takeWhile_cons_of_pos (isDigitOrUnderscore_of_isDigit digit)]
      exact ⟨c, _, rfl, digit, fun d member => List.mem_takeWhile_imp member⟩
    · exact .inl rfl

/-- A run of digits that comes next is the one taken, or it is shorter and goes on. -/
theorem shorter_digits (digits : text ∈ digitRun) (rest : List Char) :
    text = Taking.digitsText (text ++ rest) ∨
      text.length < (Taking.digitsText (text ++ rest)).length ∧
        rest.head?.any isDigitOrUnderscore = true := by
  have whole : Taking.digitsText (text ++ rest) = (text ++ rest).takeWhile isDigitOrUnderscore := by
    obtain ⟨c, more, rfl, digit, -⟩ := digits
    rw [Taking.digitsText, List.cons_append, List.head?_cons, Option.any_some, if_pos digit]
  rw [whole]
  exact shorter_takeWhile (accepted_of_digitRun digits) rest

/-! ## Optional parts -/

theorem mem_optionalPart {openings : Language Char} :
    text ∈ optionalPart openings ↔ text = [] ∨ text ∈ openings * digitRun := by
  rw [optionalPart, Language.mem_add, Language.mem_one]

/-- Whether a part goes on: with a digit or an underscore, or with the whole of it. -/
def PartGoesOn (openings : Language Char) (rest : List Char) : Prop :=
  rest.head?.any isDigitOrUnderscore = true ∨ ∃ part ∈ openings * digitRun, part <+: rest

/-- Whether a number that begins a text goes on: with a digit or an underscore, or without a radix
with the whole of a fraction or of an exponent. -/
def NumberGoesOn (unread rest : List Char) : Prop :=
  if Reader.opensRadix unread then rest.head?.any isRadixDigit = true
  else PartGoesOn ({['.']} + exponentOpenings) rest

/-- The digits in front of a number are taken as far as they go. -/
theorem greedy_digits (unread : List Char) :
    Greedy (optionalPart 1) (fun rest => rest.head?.any isDigitOrUnderscore = true)
      (Taking.digitsText unread) unread where
  member := by
    rw [mem_optionalPart, one_mul]
    exact digitsText_cases unread
  begins := Taking.digitsText_begins unread
  shorter := by
    rintro other member rest rfl
    rcases mem_optionalPart.mp member with rfl | digits
    · rw [List.nil_append]
      rcases digitsText_cases rest with none | digits
      · exact .inl none.symm
      · obtain ⟨c, more, same, digit, -⟩ := digits
        obtain ⟨behind, whole⟩ := Taking.digitsText_begins rest
        rw [same] at whole ⊢
        rw [← whole]
        exact .inr ⟨Nat.succ_pos _, isDigitOrUnderscore_of_isDigit digit⟩
    · rw [one_mul] at digits
      exact shorter_digits digits rest

/-- Whether an opening is told by the text that begins with it and a digit. -/
structure Opens (openings : Language Char) (opening : Taking.Opening) : Prop where
  member : ∀ unread, opening.text unread ≠ [] → opening.text unread ∈ openings
  nonempty : [] ∉ openings
  found : ∀ text ∈ openings, ∀ (d : Char) (rest : List Char), d.isDigit = true →
    opening.text (text ++ d :: rest) = text

variable {openings : Language Char} {opening : Taking.Opening}

theorem Opens.part_nonempty (opens : Opens openings opening) : [] ∉ openings * digitRun := by
  intro part
  obtain ⟨text, isOpening, digits, -, same⟩ := Language.mem_mul.mp part
  exact opens.nonempty ((List.append_eq_nil_iff.mp same).1 ▸ isOpening)

theorem Opens.partText_cases (opens : Opens openings opening) (unread : List Char) :
    Taking.partText opening unread = [] ∨ Taking.partText opening unread ∈ openings * digitRun := by
  by_cases absent : opening.text unread = [] ∨
      Taking.digitsText (unread.drop (opening.text unread).length) = []
  · exact .inl (if_pos absent)
  · obtain ⟨there, digits⟩ := not_or.mp absent
    rw [Taking.partText, if_neg absent]
    exact .inr (Language.append_mem_mul (opens.member unread there)
      ((digitsText_cases _).resolve_left digits))

/-- Where an opening with digits comes next, they are taken as far as they go. -/
theorem Opens.partText_append (opens : Opens openings opening) (isOpening : text ∈ openings)
    {digits : List Char} (isRun : digits ∈ digitRun) (rest : List Char) :
    Taking.partText opening (text ++ digits ++ rest) =
      text ++ Taking.digitsText (digits ++ rest) := by
  obtain ⟨d, more, rfl, digit, -⟩ := isRun
  have isRead : opening.text (text ++ d :: more ++ rest) = text := by
    rw [List.append_assoc]
    exact opens.found text isOpening d (more ++ rest) digit
  have behind : (text ++ d :: more ++ rest).drop text.length = d :: more ++ rest := by
    rw [List.append_assoc, List.drop_left]
  have there : ¬ (text = [] ∨ Taking.digitsText (d :: more ++ rest) = []) := by
    rintro (rfl | none)
    · exact opens.nonempty isOpening
    · rw [Taking.digitsText, List.cons_append, List.head?_cons, Option.any_some, if_pos digit,
        List.takeWhile_cons_of_pos (isDigitOrUnderscore_of_isDigit digit)] at none
      exact List.cons_ne_nil _ _ none
  rw [Taking.partText, isRead, behind, if_neg there]

/-- A part with an opening is taken as far as it goes, or not at all. -/
theorem Opens.greedy (opens : Opens openings opening) (unread : List Char) :
    Greedy (optionalPart openings) (PartGoesOn openings) (Taking.partText opening unread)
      unread where
  member := mem_optionalPart.mpr (opens.partText_cases unread)
  begins := Taking.partText_begins opening unread
  shorter := by
    rintro other member rest rfl
    rcases mem_optionalPart.mp member with rfl | part
    · rw [List.nil_append]
      by_cases nothing : Taking.partText opening rest = []
      · exact .inl nothing.symm
      · have isPart := (opens.partText_cases rest).resolve_left nothing
        exact .inr ⟨List.length_pos_of_ne_nil nothing,
          .inr ⟨_, isPart, Taking.partText_begins opening rest⟩⟩
    · obtain ⟨text, isOpening, digits, isRun, rfl⟩ := Language.mem_mul.mp part
      rw [opens.partText_append isOpening isRun rest]
      rcases shorter_digits isRun rest with same | ⟨short, more⟩
      · exact .inl (congrArg _ same)
      · exact .inr ⟨by simpa using short, .inl more⟩

theorem opens_fraction : Opens {['.']} Taking.fractionOpening where
  member unread there := by
    change (if unread.head? = some '.' then ['.'] else []) ≠ [] at there
    change (if unread.head? = some '.' then ['.'] else []) = ['.']
    split
    · rfl
    · next noDot => exact absurd (if_neg noDot) there
  nonempty := nofun
  found := by
    rintro text rfl d rest -
    rfl

theorem signText_mem (text : List Char) :
    Reader.signText text ∈ ({[], ['+'], ['-']} : Language Char) := by
  rcases text with _ | ⟨c, rest⟩
  · exact .inl rfl
  · rw [Reader.signText, List.take_succ_cons, List.take_zero, List.filter_cons, List.filter_nil]
    by_cases plus : c = '+'
    · subst plus
      exact .inr (.inl rfl)
    · by_cases minus : c = '-'
      · subst minus
        exact .inr (.inr rfl)
      · rw [if_neg (by simp [plus, minus])]
        exact .inl rfl

/-- A sign is told from a digit. -/
theorem signText_append {sign : List Char} (isSign : sign ∈ ({[], ['+'], ['-']} : Language Char))
    {d : Char} (digit : d.isDigit = true) (rest : List Char) :
    Reader.signText (sign ++ d :: rest) = sign := by
  rcases isSign with rfl | rfl | rfl
  · have plus : d ≠ '+' := fun same => absurd (same ▸ digit) (by decide)
    have minus : d ≠ '-' := fun same => absurd (same ▸ digit) (by decide)
    simp [Reader.signText, plus, minus]
  · rfl
  · rfl

theorem opens_exponent : Opens exponentOpenings Taking.exponentOpening where
  member unread there := by
    cases unread with
    | nil => exact absurd rfl there
    | cons letter rest =>
      by_cases announces : (letter = 'e' || letter = 'E') = true
      · have opening : Taking.exponentOpening.text (letter :: rest) =
            [letter] ++ Reader.signText rest :=
          if_pos announces
        have isLetter : [letter] ∈ ({['e'], ['E']} : Language Char) := by
          rcases Bool.or_eq_true_iff.mp announces with small | capital
          · exact .inl (by rw [of_decide_eq_true small])
          · exact .inr (by rw [of_decide_eq_true capital]; rfl)
        rw [opening]
        exact Language.append_mem_mul isLetter (signText_mem rest)
      · exact absurd (if_neg announces) there
  nonempty empty := by
    obtain ⟨letter, isLetter, sign, -, same⟩ := Language.mem_mul.mp empty
    obtain rfl := (List.append_eq_nil_iff.mp same).1
    rcases isLetter with none | none <;> exact absurd none nofun
  found text isOpening d rest digit := by
    obtain ⟨letter, isLetter, sign, isSign, rfl⟩ := Language.mem_mul.mp isOpening
    have read := signText_append isSign digit rest
    rcases isLetter with rfl | rfl
    · exact congrArg (List.cons 'e') read
    · exact congrArg (List.cons 'E') read

/-! ## Whole numbers -/

/-- The text of a number without a radix, part by part. -/
def plainText (unread : List Char) : List Char :=
  let behindWhole := unread.drop (Taking.digitsText unread).length
  let fraction := Taking.partText Taking.fractionOpening behindWhole
  Taking.digitsText unread ++ (fraction ++
    Taking.partText Taking.exponentOpening (behindWhole.drop fraction.length))

/-- A part that is there begins as its opening does. -/
theorem head_part (nonempty : [] ∉ openings) {c : Char} {tail : List Char}
    (part : c :: tail ∈ openings * digitRun) : ∃ tail, c :: tail ∈ openings := by
  obtain ⟨opening, isOpening, digits, -, same⟩ := Language.mem_mul.mp part
  cases opening with
  | nil => exact absurd isOpening nonempty
  | cons d opening =>
    obtain ⟨rfl, -⟩ := List.cons.inj same
    exact ⟨opening, isOpening⟩

theorem head_fraction {c : Char} {tail : List Char} (part : c :: tail ∈ {['.']} * digitRun) :
    c = '.' := by
  obtain ⟨tail, isOpening⟩ := head_part opens_fraction.nonempty part
  exact (List.cons.inj isOpening).1

theorem head_exponent {c : Char} {tail : List Char}
    (part : c :: tail ∈ exponentOpenings * digitRun) : c = 'e' ∨ c = 'E' := by
  obtain ⟨tail, isOpening⟩ := head_part opens_exponent.nonempty part
  obtain ⟨letter, isLetter, sign, -, same⟩ := Language.mem_mul.mp isOpening
  rcases isLetter with rfl | rfl
  · exact .inl (List.cons.inj same).1.symm
  · exact .inr (List.cons.inj same).1.symm

/-- Digits do not go on with a fraction or an exponent. -/
theorem digits_apart {part : List Char}
    (isPart : part ∈ optionalPart {['.']} * optionalPart exponentOpenings) (nonempty : part ≠ [])
    (rest : List Char) : ¬ (part ++ rest).head?.any isDigitOrUnderscore = true := by
  obtain ⟨front, isFront, back, isBack, rfl⟩ := Language.mem_mul.mp isPart
  rcases mem_optionalPart.mp isFront with rfl | isFraction
  · obtain ⟨c, tail, rfl⟩ := List.exists_cons_of_ne_nil nonempty
    have isExponent := (mem_optionalPart.mp isBack).resolve_left nonempty
    rcases head_exponent isExponent with rfl | rfl
    · exact (by decide : ¬ isDigitOrUnderscore 'e' = true)
    · exact (by decide : ¬ isDigitOrUnderscore 'E' = true)
  · cases front with
    | nil => exact absurd isFraction opens_fraction.part_nonempty
    | cons c tail =>
      obtain rfl := head_fraction isFraction
      exact (by decide : ¬ isDigitOrUnderscore '.' = true)

/-- A fraction does not go on with an exponent. -/
theorem fraction_apart {part : List Char} (isPart : part ∈ optionalPart exponentOpenings)
    (nonempty : part ≠ []) (rest : List Char) : ¬ PartGoesOn {['.']} (part ++ rest) := by
  obtain ⟨c, tail, rfl⟩ := List.exists_cons_of_ne_nil nonempty
  have isExponent := (mem_optionalPart.mp isPart).resolve_left nonempty
  rintro (more | ⟨_ | ⟨d, fraction⟩, isFraction, begins⟩)
  · have accepted : isDigitOrUnderscore c = true := more
    rcases head_exponent isExponent with rfl | rfl <;> exact absurd accepted (by decide)
  · exact opens_fraction.part_nonempty isFraction
  · obtain rfl := head_fraction isFraction
    obtain ⟨rfl, -⟩ := List.cons_prefix_cons.mp begins
    rcases head_exponent isExponent with same | same <;> exact absurd same (by decide)

theorem PartGoesOn.mono {openings' : Language Char} (within : ∀ text ∈ openings, text ∈ openings')
    (more : PartGoesOn openings rest) : PartGoesOn openings' rest := by
  refine more.imp_right ?_
  rintro ⟨part, isPart, begins⟩
  obtain ⟨opening, isOpening, digits, isRun, rfl⟩ := Language.mem_mul.mp isPart
  exact ⟨_, Language.append_mem_mul (within opening isOpening) isRun, begins⟩

/-- A number without a radix takes each of its parts as far as it goes. -/
theorem greedy_plainText (unread : List Char) :
    Greedy plainNumbers (PartGoesOn ({['.']} + exponentOpenings)) (plainText unread) unread := by
  have whole := greedy_digits unread
  have fraction := opens_fraction.greedy (unread.drop (Taking.digitsText unread).length)
  have exponent := opens_exponent.greedy ((unread.drop (Taking.digitsText unread).length).drop
    (Taking.partText Taking.fractionOpening (unread.drop (Taking.digitsText unread).length)).length)
  have parts := fraction.append exponent fun part => fraction_apart
  refine (whole.append parts fun part => digits_apart).imp ?_
  rintro rest (more | more | more)
  · exact .inl more
  · exact more.mono fun _ => .inl
  · exact more.mono fun _ => .inr

/-- A number with a radix takes its digits as far as they go. -/
theorem greedy_radixText (opens : Reader.opensRadix unread = true) :
    Greedy radixNumbers (fun rest => rest.head?.any isRadixDigit = true)
      (unread.take 2 ++ (unread.drop 2).takeWhile isRadixDigit) unread := by
  rcases unread with _ | ⟨c, _ | ⟨letter, behind⟩⟩
  · contradiction
  · simp [Reader.opensRadix] at opens
  · obtain rfl : c = '0' := by
      by_contra other
      rw [Taking.opensRadix_other other] at opens
      contradiction
    have isLetter : letter ∈ ['x', 'X', 'b', 'B'] := of_decide_eq_true opens
    refine ⟨⟨letter, _, rfl, isLetter, fun d member => List.mem_takeWhile_imp member⟩, ?_, ?_⟩
    · exact (List.prefix_append_right_inj ['0', letter]).mpr (List.takeWhile_prefix _)
    · rintro other ⟨letter', digits, rfl, -, accepted⟩ rest split
      obtain ⟨-, split⟩ := List.cons.inj split
      obtain ⟨rfl, rfl⟩ := List.cons.inj split
      rcases shorter_takeWhile accepted rest with same | ⟨short, more⟩
      · exact .inl (congrArg (['0', letter'] ++ ·) same)
      · exact .inr ⟨by simpa using short, more⟩

namespace Reader

variable {reader : Reader}

/-- In front of a number, digits that go on are digits that begin with one. -/
theorem takeWhile_of_opensNumber {unread : List Char} (opens : opensNumber unread = true) :
    unread.takeWhile isDigitOrUnderscore = Taking.digitsText unread := by
  rcases unread with _ | ⟨c, rest⟩
  · rfl
  · rw [Taking.digitsText, List.head?_cons, Option.any_some]
    split
    · rfl
    · next noDigit =>
      by_cases dot : c = '.'
      · subst dot
        rfl
      · rw [opensNumber] at opens
        · contradiction
        · rintro d tail rfl
          contradiction

/-- A number takes its parts one after the other. -/
theorem number_eq_plainText (opens : opensNumber reader.unread = true)
    (noRadix : opensRadix reader.unread = false) : reader.number.1 = plainText reader.unread := by
  set looked := if reader.peek? 0 = some '0' then reader.look 2 else reader with isLooked
  have same : looked.unread = reader.unread := reader.unread_lookRadix
  have text : (looked.run isDigitOrUnderscore).1 = Taking.digitsText reader.unread := by
    rw [run, same]
    exact takeWhile_of_opensNumber opens
  have behind : (looked.run isDigitOrUnderscore).2.unread =
      reader.unread.drop (Taking.digitsText reader.unread).length := by
    rw [← text, ← same]
    rfl
  have peeked : (looked.run isDigitOrUnderscore).2.Peeked := peeked_look 0 _
  have fraction := fraction_eq peeked
  have exponent := exponent_eq (peeked_fraction peeked)
  have radix : ¬ opensRadix reader.unread = true := Bool.eq_false_iff.mp noRadix
  simp only [number, ← isLooked, if_neg radix]
  rw [exponent, fraction, text, List.append_assoc, plainText]
  simp only [takes, Taking.part, skip, look, behind]

/-- A number takes what spells one, as far as it goes. -/
theorem greedy_number (opens : opensNumber reader.unread = true) :
    Greedy (numbersAt reader.unread) (NumberGoesOn reader.unread) reader.number.1
      reader.unread := by
  by_cases radix : opensRadix reader.unread = true
  · have text : reader.number.1 =
        reader.unread.take 2 ++ (reader.unread.drop 2).takeWhile isRadixDigit := by
      simp only [number, if_pos radix, run, skip, unread_lookRadix]
    rw [numbersAt, if_pos radix, text]
    refine (greedy_radixText radix).imp fun rest more => ?_
    rwa [NumberGoesOn, if_pos radix]
  · rw [numbersAt, if_neg radix, number_eq_plainText opens (Bool.eq_false_iff.mpr radix)]
    refine (greedy_plainText _).imp fun rest more => ?_
    rwa [NumberGoesOn, if_neg radix]

/-- A digit is read as a number, and so is a dot before one where no operand has ended. -/
theorem scan_number {context : Context} {c : Char} {rest : List Char}
    (unread : reader.unread = c :: rest) (begins : c.isDigit = true ∨
      c = '.' ∧ rest.head?.any Char.isDigit = true ∧ context.afterOperand = false) :
    ∃ start : Reader, start.unread = reader.unread ∧
      reader.scan context c = some (reader.token .number start.number.1, start.number.2) ∧
      opensNumber start.unread = true := by
  rcases begins with digit | ⟨rfl, digit, noOperand⟩
  · refine ⟨reader, rfl, if_pos digit, ?_⟩
    rw [unread, opensNumber]
    · exact digit
    · rintro d tail rfl
      contradiction
  · refine ⟨reader.look 2, rfl, ?_, ?_⟩
    · have next : ((reader.look 2).peek? 1).any Char.isDigit = true := by
        rw [List.head?_eq_getElem?] at digit
        rwa [peek?, look, unread, List.getElem?_cons_succ]
      have noDigit : '.'.isDigit = false := rfl
      have noName : isNameStart '.' = false := rfl
      have fraction : reader.scan context '.' = some (reader.look 2).numberToken := by
        simp [scan, noDigit, noName, noOperand, next]
      exact fraction
    · cases rest with
      | nil => contradiction
      | cons d rest =>
        rw [look, unread]
        exact digit

end Reader

/-! ## Ranges -/

/-- No number goes on with the two dots of a range. -/
theorem not_numberGoesOn_range (unread rest : List Char) :
    ¬ NumberGoesOn unread ('.' :: '.' :: rest) := by
  rw [NumberGoesOn]
  split
  · exact (by decide : ¬ isRadixDigit '.' = true)
  · rintro (more | ⟨part, isPart, begins⟩)
    · exact absurd more (by decide : ¬ isDigitOrUnderscore '.' = true)
    · rw [add_mul] at isPart
      rcases isPart with isFraction | isExponent
      · obtain ⟨_, rfl, digits, ⟨d, tail, rfl, digit, -⟩, rfl⟩ := Language.mem_mul.mp isFraction
        obtain ⟨-, begins⟩ := List.cons_prefix_cons.mp begins
        obtain ⟨rfl, -⟩ := List.cons_prefix_cons.mp begins
        exact absurd digit (by decide)
      · cases part with
        | nil => exact opens_exponent.part_nonempty isExponent
        | cons c tail =>
          obtain ⟨rfl, -⟩ := List.cons_prefix_cons.mp begins
          rcases head_exponent isExponent with same | same <;> exact absurd same (by decide)

namespace Scanner

/-- Whether the next token of a scanner is a number, and this text is unread from there on: it
begins with a digit, or with a dot before one where no operand has ended. -/
structure BeginsNumber (scanner : Scanner) (unread : List Char) : Prop where
  running : scanner.finished = false
  reaches : scanner.reader.skipGap.unread = unread
  begins : ∃ c rest, unread = c :: rest ∧ (c.isDigit = true ∨
    c = '.' ∧ rest.head?.any Char.isDigit = true ∧ scanner.context.afterOperand = false)

/-- A number is the longest prefix of what is unread that spells one, whatever state the scanner has
come to. Any number with which the unread text begins is that one, unless it goes on; and all that
stands behind it is left unread, so no character is consumed of a fraction or of an exponent that is
not there in full, nor of a range. -/
theorem next_number {scanner : Scanner} {unread : List Char}
    (begins : scanner.BeginsNumber unread) :
    ∃ text after, scanner.next =
        (some (.ok ⟨.number, String.ofList text, scanner.reader.skipGap.position⟩), after) ∧
      text ++ after.reader.unread = unread ∧
      LongestPrefix (numbersAt unread) text unread ∧
      (∀ number ∈ numbersAt unread, ∀ rest, number ++ rest = unread →
        ¬ NumberGoesOn unread rest → after.reader.unread = rest) ∧
      ∀ number ∈ numbersAt unread, ∀ rest, number ++ '.' :: '.' :: rest = unread →
        after.reader.unread = '.' :: '.' :: rest := by
  obtain ⟨running, rfl, c, rest, unread, begins⟩ := begins
  obtain ⟨start, same, scanned, opens⟩ := Reader.scan_number unread begins
  have greedy := Reader.greedy_number opens
  have split := (Reader.crosses_number start).unread.symm
  have untouched (number) (isNumber : number ∈ numbersAt start.unread) (rest : List Char)
      (whole : number ++ rest = start.unread) (ends : ¬ NumberGoesOn start.unread rest) :
      start.number.2.unread = rest := by
    rcases greedy.shorter number isNumber rest whole with rfl | ⟨-, more⟩
    · exact List.append_cancel_left (split.trans whole.symm)
    · exact absurd more ends
  rw [← same]
  refine ⟨_, _, next_of_scan running unread scanned, split, greedy.longest, untouched, ?_⟩
  intro number isNumber rest whole
  exact untouched number isNumber _ whole (not_numberGoesOn_range _ _)

/-- A whole fraction is taken, and no character of the exponent without digits behind it. -/
theorem next_number_mantissa :
    (start "1.5e+x".toList).BeginsNumber "1.5e+x".toList ∧
      LongestPrefix (numbersAt "1.5e+x".toList) "1.5".toList "1.5e+x".toList := by
  have begins : (start "1.5e+x".toList).BeginsNumber "1.5e+x".toList :=
    ⟨rfl, by decide, '1', ".5e+x".toList, by decide, .inl (by decide)⟩
  obtain ⟨text, after, read, -, longest, -⟩ := next_number begins
  have item : (start "1.5e+x".toList).next.1 = some (.ok ⟨.number, "1.5", .start⟩) := by
    decide +kernel
  rw [read] at item
  simp only [Option.some.injEq, Except.ok.injEq, Token.mk.injEq] at item
  have same : text = "1.5".toList := by rw [← item.2.1, String.toList_ofList]
  exact ⟨begins, same ▸ longest⟩

end Scanner

end SigilScript
