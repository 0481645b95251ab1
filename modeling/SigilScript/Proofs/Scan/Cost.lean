import SigilScript.Proofs.Scan.Cases

/-! # What reading costs

Whatever is read is read in steps: a reader looks at three characters at most, or consumes what
comes next. So no more than three characters are ever pulled in front of a reader, unless a literal
is given up, which pulls the whole text; and a reader that reads on never has pulled less than
before, and has seen the end where it had seen it before.
-/

namespace SigilScript

/-- Whether a literal without its end is at fault. -/
def ScanCause.missesEnd : ScanCause → Bool
  | .unexpectedCharacter _ => false
  | .unterminatedString | .unterminatedRegex | .unterminatedQuoteWords => true

/-- Whether an item reports a literal without its end. -/
def missesEnd : Scanned → Bool
  | .ok _ => false
  | .error fault => fault.cause.missesEnd

namespace Reader

/-- A reader becomes another one in steps of reading. -/
inductive Steps (reader : Reader) : Reader → Prop where
  | refl : Steps reader reader
  | look {between : Reader} (before : Steps reader between) {count : Nat} (few : count ≤ 3) :
    Steps reader (between.look count)
  | skip {between : Reader} (before : Steps reader between) (count : Nat) :
    Steps reader (between.skip count)

variable {reader between after : Reader}

theorem Steps.trans (first : reader.Steps between) (second : between.Steps after) :
    reader.Steps after := by
  induction second with
  | refl => exact first
  | look _ few ih => exact ih.look few
  | skip _ count ih => exact ih.skip count

/-! ## Numbers and names -/

theorem Steps.run (steps : reader.Steps between) (accepts : Char → Bool) :
    reader.Steps (between.run accepts).2 :=
  (steps.skip _).look (by decide)

theorem nameLook_le (text : List Char) : nameLook text ≤ 3 := by
  unfold nameLook
  split <;> decide

theorem Steps.name (steps : reader.Steps between) : reader.Steps between.name.2 :=
  (steps.skip _).look (nameLook_le _)

theorem versionLook_le (text : List Char) : versionLook text ≤ 3 := by
  unfold versionLook
  split <;> decide

theorem Steps.versionParts (steps : reader.Steps between) : reader.Steps between.versionParts.2 :=
  (steps.skip _).look (versionLook_le _)

theorem steps_fraction (reader : Reader) : reader.Steps reader.fraction.2 := by
  simp only [fraction]
  split
  · have looked : reader.Steps (reader.look 2) := .look .refl (by decide)
    split
    · exact (looked.skip 1).run isDigitOrUnderscore
    · exact looked
  · exact .refl

theorem steps_exponent (reader : Reader) : reader.Steps reader.exponent.2 := by
  simp only [exponent]
  split
  · next letter rest unread =>
    split
    · have short : ((rest.take 1).filter fun c => c = '+' || c = '-').length ≤ 1 :=
        Nat.le_trans (List.length_filter_le _ _) (List.length_take_le 1 rest)
      generalize (rest.take 1).filter (fun c => c = '+' || c = '-') = sign at short
      have looked : reader.Steps (reader.look (sign.length + 2)) := .look .refl (by omega)
      split
      · exact (looked.skip _).run isDigitOrUnderscore
      · exact looked
    · exact .refl
  · exact .refl

/-- A number is read behind a look at the letter of a radix. -/
theorem steps_number_look (reader : Reader) :
    (if reader.peek? 0 = some '0' then reader.look 2 else reader).Steps reader.number.2 := by
  simp only [number]
  generalize (if reader.peek? 0 = some '0' then reader.look 2 else reader) = start
  split
  · exact (Steps.refl.skip 2).run isRadixDigit
  · exact ((Steps.refl.run isDigitOrUnderscore).trans (steps_fraction _)).trans (steps_exponent _)

theorem steps_number (reader : Reader) : reader.Steps reader.number.2 := by
  have looked : reader.Steps (if reader.peek? 0 = some '0' then reader.look 2 else reader) := by
    split
    · exact .look .refl (by decide)
    · exact .refl
  exact looked.trans reader.steps_number_look

/-! ## Items -/

/-- How a reader stands behind a reading: some steps further, or with its whole text pulled where a
literal misses its end. -/
inductive Spends (reader : Reader) : Reading → Prop where
  | steps {reading : Reading} (steps : reader.Steps reading.2) : Spends reader reading
  | exhausts {item : Scanned} {opened : Reader} (misses : missesEnd item = true)
    (steps : reader.Steps opened) : Spends reader (item, opened.exhaust)

theorem Spends.behind {reading : Reading} (steps : reader.Steps between)
    (spends : between.Spends reading) : reader.Spends reading := by
  cases spends with
  | steps further => exact .steps (steps.trans further)
  | exhausts misses further => exact .exhausts misses (steps.trans further)

theorem steps_operator_look (reader : Reader) : (reader.look 3).Steps reader.operator.2 := by
  simp only [operator]
  split
  · exact Steps.refl.skip _
  · exact Steps.refl.skip 1

theorem steps_operator (reader : Reader) : reader.Steps reader.operator.2 :=
  (Steps.refl.look (Nat.le_refl 3)).trans reader.steps_operator_look

theorem spends_literal {opened : Reader} {cause : ScanCause} {body : Option Body}
    {scanned : List Char → Reader → Reading} (misses : cause.missesEnd = true)
    (steps : ∀ (text : List Char) (closed : Reader), closed.Steps (scanned text closed).2) :
    opened.Spends (reader.literal opened cause body scanned) := by
  cases body with
  | none => exact .exhausts misses .refl
  | some body => exact .steps ((Steps.refl.skip _).trans (steps body.text _))

theorem spends_pattern (reader opened : Reader) (opener : Char) :
    opened.Spends (reader.pattern opened opener) :=
  spends_literal rfl fun _ _ => Steps.refl.run Char.isAlpha

theorem spends_word {previous : Option Category} {reading : Reading}
    (read : reader.word previous = some reading) : reader.name.2.Spends reading := by
  have opened : reader.name.2.Steps (reader.name.2.skip 1) := Steps.refl.skip 1
  cases word_cases read with
  | string => exact .behind opened (spends_literal rfl fun _ _ => .refl)
  | words => exact .behind opened (spends_literal rfl fun _ _ => .refl)
  | pattern => exact .behind opened (spends_pattern _ _ _)
  | plain =>
    simp only [word.plainWord]
    split
    · exact .steps Steps.refl.versionParts
    · exact .steps .refl

theorem steps_sigil {sigil : Sigil} {reading : Reading} (found : SigilCase reader sigil reading) :
    (reader.look 3).Steps reading.2 := by
  have looked : (reader.look 3).Steps (reader.look 3) := .refl
  cases found with
  | named => exact (looked.skip _).name
  | digits => exact (looked.skip 2).run isDigitOrUnderscore
  | spelled => exact looked.skip _
  | operator => exact steps_operator _
  | fault count => exact looked.skip _

theorem spends_scan {context : Context} {c : Char} {rest : List Char} {reading : Reading}
    (next : reader.unread = c :: rest) (read : reader.scan context c = some reading) :
    reader.Spends reading := by
  have looked : reader.Steps (reader.look 2) := .look .refl (by decide)
  cases scan_cases read with
  | number => exact .steps (steps_number reader)
  | fraction => exact .steps (looked.trans (steps_number _))
  | quoted =>
    simp only [quoted]
    exact .behind (Steps.refl.skip 1) (spends_literal rfl fun _ _ => .refl)
  | word _ read => exact .behind Steps.refl.name (spends_word read)
  | sigil sigil spelled =>
    rw [spelled] at next
    have looked : reader.Steps (reader.look 3) := .look .refl (Nat.le_refl 3)
    exact .steps (looked.trans (steps_sigil (sigil_cases next)))
  | pattern => exact .behind (Steps.refl.skip 1) (spends_pattern _ _ _)
  | operator => exact .steps (steps_operator reader)
  | dot => exact .steps (looked.trans (steps_operator _))

theorem steps_skipGap (reader : Reader) : reader.Steps reader.skipGap := by
  simp only [skipGap]
  split
  · exact (Steps.refl.skip _).look (by decide)
  · exact (Steps.refl.skip _).look (by decide)

/-! ## What was pulled -/

/-- No more than three characters are pulled in front of a reader. -/
def Near (reader : Reader) : Prop := reader.ahead ≤ 3

theorem Steps.near (steps : reader.Steps after) (near : reader.Near) : after.Near := by
  induction steps with
  | refl => exact near
  | @look between _ count few ih =>
    simp only [Near, Reader.look, List.length_take] at ih ⊢
    omega
  | skip _ count ih => exact Nat.le_trans (Nat.sub_le ..) ih

/-- One reader is what another one becomes as it reads on. Where it has not seen the end, the other
one had not seen it, and had pulled no more. -/
structure Leads (reader after : Reader) : Prop where
  suffix : after.unread <:+ reader.unread
  drawn : after.ended = false → reader.ended = false ∧
    reader.ahead + after.unread.length ≤ after.ahead + reader.unread.length

theorem Leads.refl (reader : Reader) : reader.Leads reader :=
  ⟨List.suffix_refl _, fun unended => ⟨unended, Nat.le_refl _⟩⟩

theorem Leads.trans (first : reader.Leads between) (second : between.Leads after) :
    reader.Leads after := by
  refine ⟨second.suffix.trans first.suffix, fun unended => ?_⟩
  obtain ⟨unended, further⟩ := second.drawn unended
  obtain ⟨unended, drawn⟩ := first.drawn unended
  exact ⟨unended, by omega⟩

theorem leads_look (count : Nat) (reader : Reader) : reader.Leads (reader.look count) := by
  refine ⟨List.suffix_refl _, fun unended => ⟨(Bool.or_eq_false_iff.mp unended).1, ?_⟩⟩
  simp only [look]
  omega

theorem leads_skip (count : Nat) (reader : Reader) : reader.Leads (reader.skip count) := by
  refine ⟨List.drop_suffix count _, fun unended => ⟨unended, ?_⟩⟩
  simp only [skip, List.length_take, List.length_drop]
  omega

theorem Steps.leads (steps : reader.Steps after) : reader.Leads after := by
  induction steps with
  | refl => exact .refl reader
  | @look between _ count _ ih => exact ih.trans (leads_look count between)
  | @skip between _ count ih => exact ih.trans (leads_skip count between)

theorem Spends.leads {reading : Reading} (spends : reader.Spends reading) :
    reader.Leads reading.2 := by
  cases spends with
  | steps steps => exact steps.leads
  | exhausts misses steps => exact steps.leads.trans ⟨List.suffix_refl _, nofun⟩

theorem Spends.near {reading : Reading} (spends : reader.Spends reading) (near : reader.Near)
    (ends : missesEnd reading.1 = false) : reading.2.Near := by
  cases spends with
  | steps steps => exact steps.near near
  | exhausts misses _ =>
    rw [misses] at ends
    contradiction

end Reader

end SigilScript
