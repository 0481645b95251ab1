import Mathlib.Data.List.Find
import SigilScript.Proofs.Scan.Bodies
import SigilScript.Proofs.Scan.Cost
import SigilScript.Proofs.Scan.Crossing

/-! # Exchanging what stands behind a text

What a reader reads rests on what it consumes and on what it looks at. Two texts that begin alike
are therefore read alike where the end in which they differ was never looked at, and also where it
begins with a character that goes on no token, if what is read does not reach into it. Both are said
at once here, of texts first, then of readers and of the tokens that are their own spelling.
-/

namespace SigilScript

/-! ## Texts -/

/-- The characters that go on no token: what separates tokens, and the semicolon. -/
def partings : List Char := [' ', '\t', '\n', '\r', '\x0c', ';']

/-- Whether what is seen goes on no token: a parting, or nothing. -/
def Parted (seen : Option Char) : Prop := ∀ c ∈ seen, c ∈ partings

/-- Whether a text goes on no token: it is empty or begins with a parting. -/
def Parts (text : List Char) : Prop := Parted text.head?

/-- Whether a test accepts no parting. -/
def RejectsPartings (accepts : Char → Bool) : Prop := ∀ c ∈ partings, accepts c = false

instance (accepts : Char → Bool) : Decidable (RejectsPartings accepts) :=
  List.decidableBAll _ partings

theorem Parted.any {seen : Option Char} (parted : Parted seen) {accepts : Char → Bool}
    (rejects : RejectsPartings accepts) : seen.any accepts = false := by
  cases seen with
  | none => rfl
  | some c => exact rejects c (parted c rfl)

theorem Parted.ne {seen : Option Char} (parted : Parted seen) {c : Char} (other : c ∉ partings) :
    seen ≠ some c := by
  rintro rfl
  exact other (parted c rfl)

variable {front rest rest' : List Char}

theorem parts_nil : Parts [] := fun _ seen => absurd seen (Option.not_mem_none _)

theorem parts_cons {c : Char} (parting : c ∈ partings) (more : List Char) : Parts (c :: more) := by
  rintro d seen
  obtain rfl := Option.some.inj seen
  exact parting

theorem Parts.head_ne (parts : Parts rest) {c : Char} (other : c ∉ partings) (more : List Char) :
    rest ≠ c :: more := by
  rintro rfl
  exact other (parts c rfl)

theorem Parts.takeWhile (parts : Parts rest) {accepts : Char → Bool}
    (rejects : RejectsPartings accepts) : rest.takeWhile accepts = [] := by
  cases rest with
  | nil => rfl
  | cons c rest =>
    refine List.takeWhile_cons_of_neg ?_
    rw [rejects c (parts c rfl)]
    exact Bool.false_ne_true

theorem Parts.nameText (parts : Parts rest) : nameText rest = [] := by
  cases rest with
  | nil => rfl
  | cons c rest =>
    have goesOn : isNameChar c = false :=
      (show RejectsPartings isNameChar by decide) c (parts c rfl)
    refine nameText_end _ goesOn ?_
    rintro rfl
    exact absurd (parts ':' rfl) (by decide)

theorem Parts.versionText (parts : Parts rest) (inRun : Bool) : versionText inRun rest = [] := by
  cases rest with
  | nil => cases inRun <;> rfl
  | cons c rest =>
    have goesOn : isDigitOrUnderscore c = false :=
      (show RejectsPartings isDigitOrUnderscore by decide) c (parts c rfl)
    refine versionText_end _ (by rw [goesOn, Bool.and_false]) ?_
    rintro rfl
    exact absurd (parts '.' rfl) (by decide)

/-- The sign of an exponent, if there is one. -/
def Reader.signText (text : List Char) : List Char :=
  (text.take 1).filter fun c => c = '+' || c = '-'

theorem Parts.signText (parts : Parts rest) : Reader.signText rest = [] := by
  cases rest with
  | nil => rfl
  | cons c rest =>
    have noSign : (c = '+' || c = '-') = false :=
      (show RejectsPartings fun c => c = '+' || c = '-' by decide) c (parts c rfl)
    rw [Reader.signText, List.take_succ_cons, List.take_zero, List.filter_cons, noSign]
    rfl

/-- A way to take the beginning of a text, and how far to look behind what was taken. -/
structure Taking where
  take : List Char → List Char
  look : List Char → List Char → Nat
  begins (text : List Char) : take text <+: text

namespace Taking

/-- Whether what is taken rests on nothing but what is taken and what is looked at behind it, or on
a parting that stands there. -/
structure Local (taking : Taking) : Prop where
  take {front rest rest' : List Char}
    (within : (taking.take (front ++ rest)).length ≤ front.length)
    (stops : Parts rest' ∨ (taking.take (front ++ rest)).length +
      taking.look (taking.take (front ++ rest))
        ((front ++ rest).drop (taking.take (front ++ rest)).length) ≤ front.length) :
    taking.take (front ++ rest') = taking.take (front ++ rest)
  look (taken : List Char) {behind rest rest' : List Char}
    (seen : taking.look taken (behind ++ rest) ≤ behind.length) :
    taking.look taken (behind ++ rest') = taking.look taken (behind ++ rest)

/-- A run, and the character that ends it. -/
def run (accepts : Char → Bool) : Taking where
  take := List.takeWhile accepts
  look _ _ := 1
  begins _ := List.takeWhile_prefix accepts

/-- A name, and the colons that might join it. -/
def name : Taking where
  take := nameText
  look _ := nameLook
  begins := nameText_begins

/-- The further parts of a version. -/
def versionParts : Taking where
  take := versionText false
  look _ := versionLook
  begins := versionText_begins false

theorem takeWhile_exchange {accepts : Char → Bool} (rejects : RejectsPartings accepts)
    (within : ((front ++ rest).takeWhile accepts).length ≤ front.length)
    (stops : Parts rest' ∨ ((front ++ rest).takeWhile accepts).length + 1 ≤ front.length) :
    (front ++ rest').takeWhile accepts = (front ++ rest).takeWhile accepts := by
  induction front with
  | nil =>
    obtain parts | seen := stops
    · rw [List.nil_append, parts.takeWhile rejects]
      exact (List.eq_nil_of_length_eq_zero (Nat.le_zero.mp within)).symm
    · exact absurd seen (Nat.not_succ_le_zero _)
  | cons c front ih =>
    by_cases accepted : accepts c = true
    · simp only [List.cons_append, List.takeWhile_cons_of_pos accepted, List.length_cons,
        Nat.add_le_add_iff_right] at within stops ⊢
      rw [ih within stops]
    · rw [List.cons_append, List.cons_append, List.takeWhile_cons_of_neg accepted,
        List.takeWhile_cons_of_neg accepted]

theorem local_run {accepts : Char → Bool} (rejects : RejectsPartings accepts) :
    (run accepts).Local :=
  ⟨takeWhile_exchange rejects, fun _ _ _ _ _ => rfl⟩

theorem nameLook_pos (text : List Char) : 0 < nameLook text := by
  unfold nameLook
  split <;> decide

theorem nameLook_colon (text : List Char) : 1 < nameLook (':' :: text) := by
  unfold nameLook
  split <;> first | decide | simp_all

/-- A colon goes on in a name if another one and a part of the name stand behind it. -/
theorem nameText_colon {text : List Char}
    (alone : ∀ c more, text = ':' :: c :: more → isNameStart c = false) :
    nameText (':' :: text) = [] := by
  unfold nameText
  split
  · next c more same =>
    obtain rfl := (List.cons.inj same).2
    rw [alone c more rfl, if_neg Bool.false_ne_true]
  · next c more _ same =>
    obtain ⟨rfl, -⟩ := List.cons.inj same
    rfl
  · rfl

theorem nameText_short {text : List Char} (short : (nameText (':' :: text)).length ≤ 2) :
    ∀ c more, text = ':' :: c :: more → isNameStart c = false := by
  rintro c more rfl
  by_contra starts
  rw [nameText, if_pos (Bool.eq_true_of_not_eq_false starts)] at short
  simp at short

/-- A name is over where no colons join it, so two of them have to be looked behind. -/
theorem nameText_exchange (within : (nameText (front ++ rest)).length ≤ front.length)
    (stops : Parts rest' ∨ (nameText (front ++ rest)).length +
      nameLook ((front ++ rest).drop (nameText (front ++ rest)).length) ≤ front.length) :
    nameText (front ++ rest') = nameText (front ++ rest) := by
  fun_induction nameText front with
  | case1 c front starts ih =>
    simp only [List.cons_append, nameText, starts, ↓reduceIte, List.length_cons,
      List.drop_succ_cons] at within stops ⊢
    rw [ih (by omega) (stops.imp_right fun seen => by omega)]
  | case2 c front starts =>
    simp only [List.cons_append, nameText, starts, Bool.false_eq_true, ↓reduceIte]
  | case3 c front alone accepted ih =>
    simp only [List.cons_append, nameText_char _ accepted, List.length_cons,
      List.drop_succ_cons] at within stops ⊢
    rw [ih (by omega) (stops.imp_right fun seen => by omega)]
  | case4 c front alone rejected =>
    by_cases colon : c = ':'
    · subst colon
      have single : ∀ d more, front ++ rest = ':' :: d :: more → isNameStart d = false := by
        rcases front with _ | ⟨e, _ | ⟨f, front⟩⟩
        · exact nameText_short (Nat.le_succ_of_le within)
        · rintro d more same
          obtain ⟨rfl, rfl⟩ := List.cons.inj same
          exact nameText_short within d more rfl
        · rintro d more same
          obtain ⟨rfl, -⟩ := List.cons.inj same
          exact (alone f front rfl rfl).elim
      have nothing := nameText_colon single
      simp only [List.cons_append, nothing, List.length_nil, List.drop_zero, Nat.zero_add,
        List.length_cons] at stops ⊢
      refine nameText_colon fun d more same => ?_
      rcases front with _ | ⟨e, _ | ⟨f, front⟩⟩
      · obtain parts | seen := stops
        · exact absurd same (parts.head_ne (by decide) _)
        · exact absurd seen (Nat.not_le.mpr (nameLook_colon rest))
      · obtain ⟨rfl, rfl⟩ := List.cons.inj same
        obtain parts | seen := stops
        · exact (show RejectsPartings isNameStart by decide) d (parts d rfl)
        · exact absurd (show 3 ≤ 2 from seen) (by decide)
      · obtain ⟨rfl, -⟩ := List.cons.inj same
        exact (alone f front rfl rfl).elim
    · have ends := Bool.eq_false_iff.mpr rejected
      rw [List.cons_append, List.cons_append, nameText_end _ ends colon, nameText_end _ ends colon]
  | case5 =>
    have nothing : nameText rest = [] := List.eq_nil_of_length_eq_zero (Nat.le_zero.mp within)
    obtain parts | seen := stops
    · rw [List.nil_append, List.nil_append, parts.nameText, nothing]
    · have positive := nameLook_pos (([] ++ rest).drop (nameText ([] ++ rest)).length)
      simp only [List.length_nil] at seen
      omega

theorem local_name : name.Local where
  take := nameText_exchange
  look taken {behind rest rest'} seen := by
    change nameLook (behind ++ rest) ≤ behind.length at seen
    change nameLook (behind ++ rest') = nameLook (behind ++ rest)
    rcases behind with _ | ⟨c, behind⟩
    · exact absurd (nameLook_pos rest) (Nat.not_lt.mpr seen)
    · by_cases colon : c = ':'
      · subst colon
        rcases behind with _ | ⟨d, behind⟩
        · exact absurd (nameLook_colon rest) (Nat.not_lt.mpr seen)
        · by_cases colon : d = ':'
          · subst colon
            rfl
          · have other (text : List Char) : nameLook (':' :: d :: text) = 2 := by
              rw [nameLook]
              · rintro more same
                exact colon (List.cons.inj same).1
            rw [List.cons_append, List.cons_append, List.cons_append, List.cons_append, other,
              other]
      · have other (text : List Char) : nameLook (c :: text) = 1 := by
          rw [nameLook]
          · rintro more same
            exact colon (List.cons.inj same).1
          · rintro more same
            exact colon (List.cons.inj same).1
        rw [List.cons_append, List.cons_append, other, other]

theorem versionLook_pos (text : List Char) : 0 < versionLook text := by
  unfold versionLook
  split <;> decide

/-- A dot goes on in a version if a digit stands behind it. -/
theorem versionText_dot {inRun : Bool} {text : List Char}
    (noDigit : ∀ d more, text = d :: more → d.isDigit = false) :
    versionText inRun ('.' :: text) = [] := by
  cases text with
  | nil => cases inRun <;> rfl
  | cons d more => rw [versionText, noDigit d more rfl, if_neg Bool.false_ne_true]

theorem versionText_short {inRun : Bool} {text : List Char}
    (short : (versionText inRun ('.' :: text)).length ≤ 1) :
    ∀ d more, text = d :: more → d.isDigit = false := by
  rintro d more rfl
  by_contra digit
  rw [versionText, if_pos (Bool.eq_true_of_not_eq_false digit)] at short
  simp at short

theorem versionText_exchange {inRun : Bool}
    (within : (versionText inRun (front ++ rest)).length ≤ front.length)
    (stops : Parts rest' ∨ (versionText inRun (front ++ rest)).length +
      versionLook ((front ++ rest).drop (versionText inRun (front ++ rest)).length) ≤
        front.length) :
    versionText inRun (front ++ rest') = versionText inRun (front ++ rest) := by
  fun_induction versionText inRun front with
  | case1 inRun c front digit ih =>
    simp only [List.cons_append, versionText, digit, ↓reduceIte, List.length_cons,
      List.drop_succ_cons] at within stops ⊢
    rw [ih (by omega) (stops.imp_right fun seen => by omega)]
  | case2 inRun c front digit =>
    simp only [List.cons_append, versionText, digit, Bool.false_eq_true, ↓reduceIte]
  | case3 inRun c front alone accepted ih =>
    simp only [List.cons_append, versionText_char _ accepted, List.length_cons,
      List.drop_succ_cons] at within stops ⊢
    rw [ih (by omega) (stops.imp_right fun seen => by omega)]
  | case4 inRun c front alone rejected =>
    by_cases dot : c = '.'
    · subst dot
      rcases front with _ | ⟨d, front⟩
      · have nothing : versionText inRun ('.' :: rest) = [] :=
          versionText_dot (versionText_short within)
        simp only [List.singleton_append, nothing, List.length_nil, List.drop_zero,
          Nat.zero_add] at stops ⊢
        refine versionText_dot ?_
        rintro d more rfl
        obtain parts | seen := stops
        · exact (show RejectsPartings Char.isDigit by decide) d (parts d rfl)
        · exact absurd (show 2 ≤ 1 from seen) (by decide)
      · exact absurd rfl (alone d front rfl)
    · have ends := Bool.eq_false_iff.mpr rejected
      rw [List.cons_append, List.cons_append, versionText_end _ ends dot,
        versionText_end _ ends dot]
  | case5 inRun =>
    have nothing : versionText inRun rest = [] :=
      List.eq_nil_of_length_eq_zero (Nat.le_zero.mp within)
    obtain parts | seen := stops
    · rw [List.nil_append, List.nil_append, parts.versionText, nothing]
    · have positive :=
        versionLook_pos (([] ++ rest).drop (versionText inRun ([] ++ rest)).length)
      simp only [List.length_nil] at seen
      omega

theorem local_versionParts : versionParts.Local where
  take := versionText_exchange
  look taken {behind rest rest'} seen := by
    change versionLook (behind ++ rest) ≤ behind.length at seen
    change versionLook (behind ++ rest') = versionLook (behind ++ rest)
    rcases behind with _ | ⟨c, behind⟩
    · exact absurd (versionLook_pos rest) (Nat.not_lt.mpr seen)
    · by_cases dot : c = '.'
      · subst dot
        rfl
      · have other (text : List Char) : versionLook (c :: text) = 1 := by
          rw [versionLook]
          · rintro more same
            exact dot (List.cons.inj same).1
        rw [List.cons_append, List.cons_append, other, other]

theorem opensRadix_other {c : Char} (other : c ≠ '0') (text : List Char) :
    Reader.opensRadix (c :: text) = false := by
  rw [Reader.opensRadix]
  rintro _ _ same
  exact other (List.cons.inj same).1

/-- Whether a number has a radix shows in its first two characters. -/
theorem opensRadix_exchange (nonempty : front ≠ [])
    (within : Reader.opensRadix (front ++ rest) = true → 2 ≤ front.length)
    (stops : Parts rest' ∨ front.head? ≠ some '0' ∨ 2 ≤ front.length) :
    Reader.opensRadix (front ++ rest') = Reader.opensRadix (front ++ rest) := by
  rcases front with _ | ⟨c, _ | ⟨d, front⟩⟩
  · contradiction
  · by_cases zero : c = '0'
    · subst zero
      have parts : Parts rest' := stops.resolve_right (by simp)
      rw [Bool.eq_false_iff.mpr fun opens => absurd (within opens) (by decide)]
      cases rest' with
      | nil => rfl
      | cons d rest' =>
        exact (show RejectsPartings (· ∈ ['x', 'X', 'b', 'B']) by decide) d (parts d rfl)
    · rw [List.cons_append, List.cons_append, opensRadix_other zero, opensRadix_other zero]
  · by_cases zero : c = '0'
    · subst zero
      rfl
    · exact (opensRadix_other zero _).trans (opensRadix_other zero _).symm

/-! ## Optional parts of a number -/

/-- A run of digits that begins with one, or nothing. -/
def digitsText (text : List Char) : List Char :=
  if text.head?.any Char.isDigit then text.takeWhile isDigitOrUnderscore else []

theorem digitsText_exchange (within : (digitsText (front ++ rest)).length ≤ front.length)
    (stops : Parts rest' ∨ (digitsText (front ++ rest)).length + 1 ≤ front.length) :
    digitsText (front ++ rest') = digitsText (front ++ rest) := by
  cases front with
  | nil =>
    have nothing : digitsText rest = [] := List.eq_nil_of_length_eq_zero (Nat.le_zero.mp within)
    obtain parts | seen := stops
    · rw [List.nil_append, List.nil_append, nothing, digitsText, Parted.any parts (by decide),
        if_neg Bool.false_ne_true]
    · exact absurd seen (Nat.not_succ_le_zero _)
  | cons c front =>
    by_cases digit : c.isDigit = true
    · simp only [List.cons_append, digitsText, List.head?_cons, Option.any_some, digit,
        ↓reduceIte] at within stops ⊢
      rw [← List.cons_append] at within stops ⊢
      exact takeWhile_exchange (by decide) within stops
    · simp [digitsText, digit]

/-- What opens an optional part, where a test of the text's beginning tells. -/
structure Opening where
  text : List Char → List Char
  begins (whole : List Char) : text whole <+: whole
  exchange {front rest rest' : List Char}
    (stops : Parts rest' ∨ (text (front ++ rest)).length < front.length) :
    text (front ++ rest') = (text (front ++ rest)).take front.length

/-- The dot of a fraction. -/
def fractionOpening : Opening where
  text whole := if whole.head? = some '.' then ['.'] else []
  begins whole := by
    split
    · next dot =>
      obtain ⟨rest, rfl⟩ := List.head?_eq_some_iff.mp dot
      exact ⟨rest, rfl⟩
    · exact List.nil_prefix
  exchange {front rest rest'} stops := by
    cases front with
    | nil =>
      obtain parts | short := stops
      · have noDot : ([] ++ rest').head? ≠ some '.' := fun dot => absurd (parts '.' dot) (by decide)
        rw [if_neg noDot, List.length_nil, List.take_zero]
      · exact absurd short (Nat.not_lt_zero _)
    | cons c front =>
      simp only [List.cons_append, List.head?_cons, List.length_cons]
      by_cases dot : c = '.' <;> simp [dot]

/-- The letter of an exponent and its sign. -/
def exponentOpening : Opening where
  text
    | letter :: rest => if letter = 'e' || letter = 'E' then letter :: Reader.signText rest else []
    | [] => []
  begins whole := by
    cases whole with
    | nil => exact List.nil_prefix
    | cons letter rest =>
      dsimp only
      split
      · obtain ⟨digits, same⟩ := Reader.sign_prefix rest
        refine ⟨digits, ?_⟩
        rw [List.cons_append]
        exact congrArg _ same.symm
      · exact List.nil_prefix
  exchange {front rest rest'} stops := by
    rcases front with _ | ⟨c, _ | ⟨d, front⟩⟩
    · obtain parts | short := stops
      · cases rest' with
        | nil => rfl
        | cons c rest' =>
          have noLetter := (show RejectsPartings fun letter => letter = 'e' || letter = 'E' by
            decide) c (parts c rfl)
          simp [noLetter]
      · exact absurd short (Nat.not_lt_zero _)
    · obtain parts | short := stops
      · simp only [List.cons_append, List.nil_append, parts.signText, List.length_singleton]
        split
        · rfl
        · rfl
      · have nothing := List.eq_nil_of_length_eq_zero (Nat.lt_one_iff.mp short)
        simp only [List.cons_append, List.nil_append] at nothing ⊢
        split at nothing
        · contradiction
        · next noLetter => rw [if_neg noLetter, if_neg noLetter, List.take_nil]
    · simp only [List.cons_append, Reader.signText, List.take_succ_cons, List.take_zero,
        List.length_cons]
      split
      · by_cases signed : (d = '+' || d = '-') = true <;> simp [signed]
      · rfl

theorem digitsText_begins (text : List Char) : digitsText text <+: text := by
  unfold digitsText
  split
  · exact List.takeWhile_prefix _
  · exact List.nil_prefix

theorem digitsText_parts (parts : Parts rest) : digitsText rest = [] := by
  rw [digitsText, Parted.any parts (by decide), if_neg Bool.false_ne_true]

/-- An optional part of a number is its opening with digits behind, or nothing. -/
def partText (opening : Opening) (text : List Char) : List Char :=
  let digits := digitsText (text.drop (opening.text text).length)
  if opening.text text = [] ∨ digits = [] then [] else opening.text text ++ digits

/-- How far to look behind an optional part: for the digit that it asks for where there is none. -/
def partLook (opening : Opening) (taken behind : List Char) : Nat :=
  if taken = [] then (opening.text behind).length + 1 else 1

theorem partText_begins (opening : Opening) (text : List Char) :
    partText opening text <+: text := by
  dsimp only [partText]
  split
  · exact List.nil_prefix
  · obtain ⟨rest, same⟩ := opening.begins text
    have behind : text.drop (opening.text text).length = rest :=
      (congrArg (List.drop _) same).symm.trans List.drop_left
    obtain ⟨more, digits⟩ := digitsText_begins rest
    exact ⟨more, by rw [behind, List.append_assoc, digits, same]⟩

/-- The opening and the digits of a part that is there, and the look that ends it. -/
theorem partText_length (opening : Opening) (text : List Char) :
    partText opening text = [] ∧
      (opening.text text = [] ∨ digitsText (text.drop (opening.text text).length) = []) ∧
      partLook opening (partText opening text) (text.drop (partText opening text).length) =
        (opening.text text).length + 1 ∨
    (partText opening text).length = (opening.text text).length +
      (digitsText (text.drop (opening.text text).length)).length ∧
      partLook opening (partText opening text) (text.drop (partText opening text).length) = 1 := by
  by_cases absent : opening.text text = [] ∨ digitsText (text.drop (opening.text text).length) = []
  · have nothing : partText opening text = [] := if_pos absent
    exact .inl ⟨nothing, absent, by rw [nothing, partLook, if_pos rfl]; rfl⟩
  · have whole : partText opening text =
        opening.text text ++ digitsText (text.drop (opening.text text).length) := if_neg absent
    have there : partText opening text ≠ [] := by
      rw [whole]
      exact List.append_ne_nil_of_left_ne_nil (not_or.mp absent).1 _
    exact .inr ⟨by rw [whole, List.length_append], by rw [partLook, if_neg there]⟩

theorem partText_exchange (opening : Opening)
    (within : (partText opening (front ++ rest)).length ≤ front.length)
    (stops : Parts rest' ∨ (partText opening (front ++ rest)).length +
      partLook opening (partText opening (front ++ rest))
        ((front ++ rest).drop (partText opening (front ++ rest)).length) ≤ front.length) :
    partText opening (front ++ rest') = partText opening (front ++ rest) := by
  have long := partText_length opening (front ++ rest)
  have exchange : opening.text (front ++ rest') =
      (opening.text (front ++ rest)).take front.length :=
    opening.exchange (stops.imp_right fun seen => by omega)
  by_cases inside : (opening.text (front ++ rest)).length ≤ front.length
  · rw [List.take_of_length_le inside] at exchange
    have behind (text : List Char) : (front ++ text).drop (opening.text (front ++ rest)).length =
        front.drop (opening.text (front ++ rest)).length ++ text :=
      List.drop_append_of_le_length inside
    by_cases absent : opening.text (front ++ rest) = []
    · rw [partText, partText, exchange, absent, if_pos (.inl rfl), if_pos (.inl rfl)]
    · have digits : digitsText ((front ++ rest').drop (opening.text (front ++ rest)).length) =
          digitsText ((front ++ rest).drop (opening.text (front ++ rest)).length) := by
        rw [behind] at long ⊢
        rw [behind]
        have left : (front.drop (opening.text (front ++ rest)).length).length =
            front.length - (opening.text (front ++ rest)).length := List.length_drop
        rcases long with ⟨-, none, look⟩ | ⟨whole, look⟩
        · have few := congrArg List.length (none.resolve_left absent)
          rw [List.length_nil] at few
          exact digitsText_exchange (by omega) (stops.imp_right fun seen => by omega)
        · exact digitsText_exchange (by omega) (stops.imp_right fun seen => by omega)
      rw [partText, partText, exchange, digits]
  · -- The opening reaches into what is exchanged, so there is no part, and none behind a parting.
    have reached : (opening.text (front ++ rest')).length = front.length := by
      rw [exchange, List.length_take_of_le (by omega)]
    have parts : Parts rest' := stops.resolve_right (by omega)
    rw [(long.resolve_right (by omega)).1, partText, reached, List.drop_left, digitsText_parts parts,
      if_pos (.inr rfl)]

/-- An optional part of a number. -/
def part (opening : Opening) : Taking :=
  ⟨partText opening, partLook opening, partText_begins opening⟩

theorem local_part (opening : Opening) : (part opening).Local where
  take := partText_exchange opening
  look taken {behind rest rest'} seen := by
    change partLook opening taken (behind ++ rest) ≤ behind.length at seen
    change partLook opening taken (behind ++ rest') = partLook opening taken (behind ++ rest)
    by_cases nothing : taken = []
    · simp only [partLook, nothing, ↓reduceIte] at seen ⊢
      rw [opening.exchange (.inr seen), List.take_of_length_le (Nat.le_of_lt seen)]
    · rw [partLook, partLook, if_neg nothing, if_neg nothing]

end Taking

end SigilScript
