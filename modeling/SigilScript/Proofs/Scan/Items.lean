import Mathlib.Data.Bool.AllAny
import SigilScript.Proofs.Scan.Order
import SigilScript.Proofs.Scan.Sigils

/-! # Items of texts that begin alike

Twin readers read the same items. Where what stands behind may be seen to differ, that is not said
of a fault, whose end may stand there, nor of a sigil that leans on what stands there: what parts
them parts the sigil from what it dereferences.
-/

namespace SigilScript

/-- What an item says, wherever it stands. -/
def gistOf : Scanned → Except ScanCause (TokenKind × String)
  | .ok token => .ok (token.kind, token.text)
  | .error fault => .error fault.cause

/-- Whether a token leans on the one right behind it, as a sigil does on what it dereferences. -/
def TokenKind.leans : TokenKind → Bool
  | .derefSigil _ => true
  | _ => false

/-- Whether an item may be told apart from the ends behind it: nothing stands behind a token that
leans, but for what it leans on, and nothing at all behind a fault. -/
def Told (rest rest' : List Char) : Scanned → Prop
  | .ok token => token.kind.leans = true → rest = []
  | .error _ => rest = [] ∧ rest' = []

/-- An item is what it says and where it stands. -/
theorem eq_of_gist {first second : Scanned} (content : gistOf second = gistOf first)
    (place : placeOf second = placeOf first) : second = first := by
  rcases first with ⟨cause, position⟩ | ⟨kind, text, position⟩
  · rcases second with ⟨cause', position'⟩ | ⟨kind', text', position'⟩
    · obtain rfl : cause' = cause := by simpa [gistOf] using content
      obtain rfl : position' = position := place
      rfl
    · contradiction
  · rcases second with ⟨cause', position'⟩ | ⟨kind', text', position'⟩
    · contradiction
    · obtain ⟨rfl, rfl⟩ : kind' = kind ∧ text' = text := by simpa [gistOf] using content
      obtain rfl : position' = position := place
      rfl

variable {front rest rest' : List Char}

/-! ## Operators in a text -/

theorem isPrefixOf_front {word : List Char} (fits : word.length ≤ front.length)
    (rest : List Char) : word.isPrefixOf (front ++ rest) = word.isPrefixOf front := by
  rw [Bool.eq_iff_iff, List.isPrefixOf_iff_prefix, List.isPrefixOf_iff_prefix]
  exact ⟨fun begins => List.prefix_of_prefix_length_le begins (List.prefix_append ..) fits,
    fun begins => begins.trans (List.prefix_append ..)⟩

/-- A word without partings does not reach across one. -/
theorem length_of_isPrefixOf_parted {word : List Char} (parts : Parts rest)
    (whole : ∀ c ∈ word, c ∉ partings) (begins : word.isPrefixOf (front ++ rest) = true) :
    word.length ≤ front.length := by
  induction front generalizing word with
  | nil =>
    rcases word with _ | ⟨c, word⟩
    · exact Nat.le_refl 0
    · obtain ⟨more, same⟩ := List.isPrefixOf_iff_prefix.mp begins
      exact absurd same.symm (parts.head_ne (whole c List.mem_cons_self) _)
  | cons d front ih =>
    rcases word with _ | ⟨c, word⟩
    · exact Nat.zero_le _
    · rw [List.cons_append, List.isPrefixOf_cons_cons, Bool.and_eq_true_iff] at begins
      exact Nat.succ_le_succ
        (ih (fun other member => whole other (List.mem_cons_of_mem _ member)) begins.2)

/-- The operator at the front of a text. -/
def operatorAt (text : List Char) : Option String :=
  operatorSpellings.find? fun spelling => spelling.toList.isPrefixOf text

theorem begins_of_operatorAt {text : List Char} {spelling : String}
    (found : operatorAt text = some spelling) : spelling.toList <+: text := by
  have begins :=
    List.find?_some (p := fun spelling : String => spelling.toList.isPrefixOf text) found
  exact List.isPrefixOf_iff_prefix.mp begins

theorem length_operator_le : ∀ spelling ∈ operatorSpellings, spelling.toList.length ≤ 3 := by decide

theorem operator_parted : ∀ spelling ∈ operatorSpellings, ∀ c ∈ spelling.toList.tail,
    c ∉ partings := by
  have whole : ∀ spelling ∈ operatorSpellings, spelling.toList.tail.all (· ∉ partings) = true := by
    decide
  exact fun spelling member => List.all_iff_forall_prop.mp (whole spelling member)

/-- The operator at the front of a text is told by three characters. -/
theorem operatorAt_seen (seen : 3 ≤ front.length) (rest rest' : List Char) :
    operatorAt (front ++ rest') = operatorAt (front ++ rest) := by
  apply List.find?_congr
  intro spelling member
  have fits := (length_operator_le spelling member).trans seen
  rw [isPrefixOf_front fits, isPrefixOf_front fits]

/-- Behind an operator a parting makes no longer one. -/
theorem operatorAt_parted {spelling : String} (found : operatorAt (front ++ rest) = some spelling)
    (nonempty : front ≠ []) (fits : spelling.toList.length ≤ front.length) (parts : Parts rest') :
    operatorAt (front ++ rest') = some spelling := by
  obtain ⟨begins, before, behind, all, others⟩ := List.find?_eq_some_iff_append.mp found
  rw [isPrefixOf_front fits] at begins
  refine List.find?_eq_some_iff_append.mpr
    ⟨by rw [isPrefixOf_front fits, begins], before, behind, all, fun other member => ?_⟩
  have rejected := others other member
  have whole := operator_parted other (all ▸ List.mem_append_left _ member)
  rw [Bool.not_eq_true', ← Bool.not_eq_true] at rejected ⊢
  intro accepted
  have fits : other.toList.length ≤ front.length := by
    obtain ⟨c, front, rfl⟩ := List.exists_cons_of_ne_nil nonempty
    rcases spelled : other.toList with _ | ⟨d, word⟩
    · exact Nat.zero_le _
    · rw [spelled] at whole accepted
      rw [List.cons_append, List.isPrefixOf_cons_cons, Bool.and_eq_true_iff] at accepted
      exact Nat.succ_le_succ (length_of_isPrefixOf_parted parts whole accepted.2)
  rw [isPrefixOf_front fits] at rejected accepted
  exact rejected accepted

namespace Reader

variable {exact : Bool} {reader other opened opened' : Reader}

/-- Whether one reader reads the item that the other one does, as far as the reading spares the end.
Where the ends may be seen to differ the item has to be told apart from them. -/
def ReadsItem (exact : Bool) (rest rest' : List Char) (reading other : Reading) : Prop :=
  reading.2.Spares rest rest' exact → (exact = false → Told rest rest' reading.1) →
    gistOf other.1 = gistOf reading.1 ∧ Twin exact rest rest' reading.2 other.2

/-- The same where nothing may be read. -/
def ReadsSame (exact : Bool) (rest rest' : List Char) (first second : Option Reading) : Prop :=
  ∀ reading, first = some reading → reading.2.Spares rest rest' exact →
    (exact = false → Told rest rest' reading.1) →
      ∃ reading', second = some reading' ∧ gistOf reading'.1 = gistOf reading.1 ∧
        Twin exact rest rest' reading.2 reading'.2

theorem ReadsItem.same {reading reading' : Reading}
    (reads : ReadsItem exact rest rest' reading reading') :
    ReadsSame exact rest rest' (some reading) (some reading') := by
  rintro _ ⟨⟩ spares told
  exact ⟨reading', rfl, reads spares told⟩

/-- A token that is its own spelling. -/
theorem Reads.token {reading reading' : List Char × Reader}
    (reads : Reads exact rest rest' reading reading') (kind : TokenKind) (opening : List Char) :
    ReadsItem exact rest rest' (reader.token kind (opening ++ reading.1), reading.2)
      (other.token kind (opening ++ reading'.1), reading'.2) := by
  intro spares _
  obtain ⟨same, behind⟩ := reads spares
  exact ⟨by rw [same]; rfl, behind⟩

theorem Twin.token (twin : Twin exact rest rest' opened opened') (kind : TokenKind)
    (text : List Char) :
    ReadsItem exact rest rest' (reader.token kind text, opened)
      (other.token kind text, opened') :=
  fun _ _ => ⟨rfl, twin⟩

/-! ## Operators -/

theorem operator_eq (reader : Reader) :
    reader.operator = match operatorAt reader.unread with
      | some spelling =>
        (.ok ⟨.ofOperator spelling, spelling, reader.position⟩,
          (reader.look 3).skip spelling.length)
      | none =>
        (reader.fault (.unexpectedCharacter (reader.unread.headD '\x00')),
          (reader.look 3).skip 1) :=
  rfl

namespace Twin

theorem numberToken (twin : Twin exact rest rest' reader other)
    (inside : rest.length < reader.unread.length) :
    ReadsItem exact rest rest' reader.numberToken other.numberToken :=
  (twin.number inside).token .number []

theorem operator (twin : Twin exact rest rest' reader other)
    (inside : rest.length < reader.unread.length) :
    ReadsItem exact rest rest' reader.operator other.operator := by
  intro spares told
  have kept := spares.before reader.steps_operator_look.leads
  have stops := kept.looked
  have looked := twin.looked kept
  have within := spares.within
  obtain ⟨front, unread, unread'⟩ := twin.text
  have nonempty : front ≠ [] := by
    rintro rfl
    exact Nat.lt_irrefl _ (by rwa [unread] at inside)
  rw [operator_eq] at spares told within ⊢
  rw [operator_eq]
  cases found : operatorAt reader.unread with
  | none =>
    rw [found] at told
    have same : operatorAt other.unread = none := by
      obtain ⟨-, parted⟩ | seen := stops
      · obtain ⟨rfl, rfl⟩ : rest = [] ∧ rest' = [] := told parted
        rw [unread', ← unread, found]
      · rw [unread, List.length_append] at seen
        rw [unread', operatorAt_seen (by omega) rest, ← unread, found]
    have first : other.unread.headD '\x00' = reader.unread.headD '\x00' := by
      obtain ⟨c, front, rfl⟩ := List.exists_cons_of_ne_nil nonempty
      rw [unread, unread']
      rfl
    simp only [same, first]
    exact ⟨rfl, looked.skip (by simp only [Reader.look]; omega)⟩
  | some spelling =>
    have fits := (begins_of_operatorAt found).length_le
    rw [String.length_toList] at fits
    simp only [found, Reader.skip, Reader.look, List.length_drop] at within
    have same : operatorAt other.unread = some spelling := by
      rw [unread] at found
      rw [unread, List.length_append] at fits within
      rw [unread']
      obtain parted | seen := stops
      · exact operatorAt_parted found nonempty (by rw [String.length_toList]; omega) parted.1
      · rw [unread, List.length_append] at seen
        rw [operatorAt_seen (by omega) rest, found]
    simp only [same]
    exact ⟨rfl, looked.skip (by simp only [Reader.look]; omega)⟩

/-! ## Literals -/

/-- A literal that is read to its end is read the same; one that misses its end pulls the whole
text. -/
theorem literal (behind : Twin exact rest rest' opened opened') {cause : ScanCause}
    {body? : List Char → Option Body} (ends : EndsItself body?)
    {scanned scanned' : List Char → Reader → Reading}
    (leads : ∀ (text : List Char) (closed : Reader), closed.Leads (scanned text closed).2)
    (continues : ∀ (text : List Char) {closed closed' : Reader},
      Twin exact rest rest' closed closed' →
        ReadsItem exact rest rest' (scanned text closed) (scanned' text closed')) :
    ReadsItem exact rest rest' (reader.literal opened cause (body? opened.unread) scanned)
      (other.literal opened' cause (body? opened'.unread) scanned') := by
  intro spares told
  cases found : body? opened.unread with
  | none =>
    rw [found] at spares told
    cases spares with
    | parted =>
      obtain ⟨rfl, rfl⟩ : rest = [] ∧ rest' = [] := told rfl
      obtain ⟨front, unread, unread'⟩ := behind.text
      have same : opened'.unread = opened.unread := unread'.trans unread.symm
      rw [same, found]
      exact ⟨rfl, ⟨front, unread, unread'⟩, nofun⟩
    | unseen unended => exact absurd unended nofun
  | some body =>
    rw [found] at spares told
    have fits := ends.fits found
    have within := (spares.before (leads body.text _)).within
    simp only [Reader.skip, List.length_drop] at within
    have inside : body.length + rest.length ≤ opened.unread.length := by omega
    obtain ⟨front, unread, unread'⟩ := behind.text
    have same : body? opened'.unread = some body := by
      rw [unread] at found
      rw [unread, List.length_append] at fits within
      rw [unread']
      exact ends.exchange found (by omega) rest'
    rw [same]
    exact continues body.text (behind.skip inside) spares told

theorem quoted (twin : Twin exact rest rest' reader other) (quote : Char)
    (inside : rest.length < reader.unread.length) :
    ReadsItem exact rest rest' (reader.quoted quote) (other.quoted quote) :=
  literal (twin.skip (by omega)) (endsItself_quoted quote) (fun _ _ => .refl _)
    fun text _ _ closed => closed.token _ text

theorem delimitedString (behind : Twin exact rest rest' opened opened') (opener : Char)
    (interpolated : Bool) :
    ReadsItem exact rest rest' (reader.delimitedString opened opener interpolated)
      (other.delimitedString opened' opener interpolated) :=
  literal behind (endsItself_text opener) (fun _ _ => .refl _)
    fun text _ _ closed => closed.token _ (decodeEscapes interpolated text)

theorem wordList (behind : Twin exact rest rest' opened opened') (opener : Char) :
    ReadsItem exact rest rest' (reader.wordList opened opener) (other.wordList opened' opener) :=
  literal behind (endsItself_text opener) (fun _ _ => .refl _)
    fun text _ _ closed => closed.token _ text

theorem pattern (behind : Twin exact rest rest' opened opened') (opener : Char) :
    ReadsItem exact rest rest' (reader.pattern opened opener) (other.pattern opened' opener) := by
  refine literal behind (endsItself_pattern opener)
    (fun _ _ => (Steps.run .refl Char.isAlpha).leads) fun text closed closed' twin spares _ => ?_
  obtain ⟨same, flagged⟩ := twin.run (by decide) spares
  refine ⟨?_, flagged⟩
  dsimp only
  rw [same]
  rfl

/-! ## Words -/

theorem plainWord {after after' : Reader} (behind : Twin exact rest rest' after after')
    (text : List Char) :
    ReadsItem exact rest rest' (word.plainWord reader after text)
      (word.plainWord other after' text) := by
  simp only [word.plainWord]
  split
  · exact behind.versionParts.token .number text
  · exact behind.token .identifier text

theorem word_unquoted {previous : Option Category}
    (goesOn : isEndWord (String.ofList reader.name.1) = false)
    (unquoted : reader.name.2.unread.head?.any isQuoteDelimiter = false) :
    reader.word previous = some (word.plainWord reader reader.name.2 reader.name.1) := by
  have noEnd : ¬(String.ofList reader.name.1 = "__END__" || String.ofList reader.name.1 =
      "__DATA__") = true := by
    rw [isEndWord] at goesOn
    rw [goesOn]
    exact Bool.false_ne_true
  have alone : (reader.name.2.unread.head?.filter fun c =>
      previous ≠ some .arrow && isQuoteDelimiter c) = none := by
    rw [Option.any_eq_false] at unquoted
    rw [Option.filter_eq_none_iff]
    intro c next
    simp [unquoted c next]
  simp only [Reader.word, if_neg noEnd, alone]

/-- Where a name is over, the next character shows whether it quotes. -/
theorem word_inside {previous : Option Category} (name : other.name.1 = reader.name.1)
    (behind : Twin exact rest rest' reader.name.2 other.name.2)
    (inside : rest.length < reader.name.2.unread.length) :
    ReadsSame exact rest rest' (reader.word previous) (other.word previous) := by
  have head : other.name.2.unread.head? = reader.name.2.unread.head? := by
    rw [List.head?_eq_getElem?, List.head?_eq_getElem?]
    exact behind.peek? (by omega)
  have one : 1 + rest.length ≤ reader.name.2.unread.length := by omega
  have opened := behind.skip one
  simp only [Reader.word, name, head]
  split
  · exact fun _ nothing => absurd nothing (Option.some_ne_none _).symm
  · split
    · next opener _ =>
      split
      · exact (delimitedString opened opener false).same
      · exact (delimitedString opened opener true).same
      · exact (wordList opened opener).same
      · exact (pattern opened opener).same
      · exact (pattern opened opener).same
      · exact (plainWord behind _).same
    · exact (plainWord behind _).same

theorem word (twin : Twin exact rest rest' reader other) (previous : Option Category) :
    ReadsSame exact rest rest' (reader.word previous) (other.word previous) := by
  intro reading read spares told
  have kept := spares.before (spends_word read).leads
  obtain ⟨name, behind⟩ := twin.name kept
  by_cases inside : rest.length < reader.name.2.unread.length
  · exact word_inside name behind inside reading read spares told
  · -- The name goes up to the end, so nothing is quoted, and behind a parting nothing either.
    have ends : reader.name.2.unread.length ≤ rest.length := Nat.not_lt.mp inside
    have parts : Parts rest' := And.left <| kept.looked.resolve_right fun seen => by
      have positive := Taking.nameLook_pos reader.name.2.unread
      change nameLook reader.name.2.unread + _ ≤ reader.name.2.unread.length at seen
      omega
    have quotesNothing {opener : Char} {behind : List Char}
        (next : reader.name.2.unread = opener :: behind)
        (leads : (reader.name.2.skip 1).Leads reading.2) : False := by
      have within := (spares.before leads).within
      simp only [Reader.skip, List.length_drop] at within
      rw [next, List.length_cons] at within ends
      omega
    cases word_cases read with
    | string _ _ next => exact (quotesNothing next (spends_literal rfl fun _ _ => .refl).leads).elim
    | words _ next => exact (quotesNothing next (spends_literal rfl fun _ _ => .refl).leads).elim
    | pattern _ _ next => exact (quotesNothing next (spends_pattern _ _ _).leads).elim
    | plain goesOn =>
      have unquoted : other.name.2.unread.head?.any isQuoteDelimiter = false := by
        rw [List.head?_eq_getElem?]
        have within := kept.within
        exact (behind.parted_peek? parts (by omega)).any (by decide)
      rw [← name] at goesOn
      refine ⟨_, word_unquoted goesOn unquoted, ?_⟩
      rw [name]
      exact plainWord behind _ spares told

/-! ## Sigils -/

/-- What was chosen is read the same as far as it goes at least. -/
theorem readChoice (looked : Twin exact rest rest' (reader.look 3) (other.look 3))
    {choice : SigilChoice} {sigil : Sigil} (fits : choice.span + rest.length ≤ reader.unread.length)
    (inside : rest.length < reader.unread.length) :
    ReadsItem exact rest rest' (choice.read reader sigil) (choice.read other sigil) := by
  cases choice with
  | name =>
    have one : 1 + rest.length ≤ reader.unread.length := by omega
    exact (looked.skip one).name.token (.var sigil) [sigil.char]
  | qualified => exact (looked.skip fits).name.token (.var sigil) [sigil.char, ':', ':']
  | lastIndex =>
    have two : 2 + rest.length ≤ reader.unread.length :=
      Nat.le_trans (Nat.add_le_add_right (by decide) _) fits
    exact (looked.skip two).name.token (.var sigil) ['$', '#']
  | dereference text => exact (looked.skip fits).token _ _
  | special c =>
    simp only [SigilChoice.read]
    split
    · exact ((looked.skip fits).run (by decide)).token (.var sigil) [sigil.char, c]
    · exact (looked.skip fits).token _ _
  | operator => exact looked.operator inside
  | fault count => exact fun _ _ => ⟨rfl, looked.skip fits⟩

/-- Where what leans on nothing is parted from what stands behind, the same is chosen. -/
theorem choice_alone (twin : Twin exact rest rest' reader other) (parts : Parts rest')
    {sigil : Sigil} {choice : SigilChoice}
    (chosen : SigilChoice.of sigil (reader.peek? 1) (reader.peek? 2) = choice)
    (alone : choice.alone = true) (fits : choice.span + rest.length ≤ reader.unread.length)
    (inside : rest.length < reader.unread.length) :
    SigilChoice.of sigil (other.peek? 1) (other.peek? 2) = choice := by
  subst chosen
  by_cases two : 1 + rest.length < reader.unread.length
  · rw [twin.peek? two]
    by_cases three : 2 + rest.length < reader.unread.length
    · rw [twin.peek? three]
    · have ends : reader.unread.length = 2 + rest.length := by omega
      rw [SigilChoice.of_parted (twin.parted_peek? parts ends),
        SigilChoice.of_none alone (by omega)]
  · have ends : reader.unread.length = 1 + rest.length := by omega
    exact SigilChoice.of_next alone (by omega) (twin.parted_peek? parts ends)

/-- Where nothing stood behind, the same is chosen as long as there is a character to choose by. -/
theorem choice_last (twin : Twin exact [] rest' reader other) (parts : Parts rest')
    (sigil : Sigil) (two : 1 < reader.unread.length) :
    SigilChoice.of sigil (other.peek? 1) (other.peek? 2) =
      SigilChoice.of sigil (reader.peek? 1) (reader.peek? 2) := by
  rw [twin.peek? two]
  by_cases three : 2 < reader.unread.length
  · rw [twin.peek? three]
  · have ends : reader.unread.length = 2 := by omega
    have nothing : reader.peek? 2 = none := List.getElem?_eq_none (Nat.le_of_eq ends)
    rw [SigilChoice.of_parted (twin.parted_peek? parts ends), nothing]

/-- Where what stands behind parts, the same is chosen as long as the item is told apart from it. -/
theorem choice_parted (twin : Twin exact rest rest' reader other) (parts : Parts rest')
    {sigil : Sigil} {choice : SigilChoice} {more : List Char}
    (chosen : SigilChoice.of sigil (reader.peek? 1) (reader.peek? 2) = choice)
    (starts : reader.unread = sigil.char :: more) (inside : rest.length < reader.unread.length)
    (within : rest.length ≤ (choice.read reader sigil).2.unread.length)
    (told : Told rest rest' (choice.read reader sigil).1) :
    SigilChoice.of sigil (other.peek? 1) (other.peek? 2) = choice ∧
      choice.span + rest.length ≤ reader.unread.length := by
  cases alone : choice.alone with
  | true =>
    have long := SigilChoice.length_of_read chosen alone starts
    have fits : choice.span + rest.length ≤ reader.unread.length := by omega
    exact ⟨twin.choice_alone parts chosen alone fits inside, fits⟩
  | false =>
    cases choice with
    | dereference text =>
      obtain rfl : rest = [] := told rfl
      obtain ⟨d, -, there⟩ := leans_on chosen
      have long := (List.getElem?_eq_some_iff.mp there).1
      have some : 0 < text.length := by
        obtain ⟨rfl, -⟩ | ⟨rfl, -⟩ := SigilChoice.next_of_dereference chosen <;>
          exact Nat.succ_pos _
      exact ⟨(twin.choice_last parts sigil (by omega)).trans chosen, Nat.le_of_lt long⟩
    | fault count =>
      obtain ⟨rfl, rfl⟩ : rest = [] ∧ rest' = [] := told
      obtain ⟨front, unread, unread'⟩ := twin.text
      have same : other.unread = reader.unread := unread'.trans unread.symm
      refine ⟨by rwa [Reader.peek?, Reader.peek?, same], ?_⟩
      obtain rfl | ⟨rfl, next⟩ := SigilChoice.next_of_fault chosen
      · exact inside
      · exact (List.getElem?_eq_some_iff.mp next).1
    | name | qualified | lastIndex | special | operator => contradiction

theorem sigil (twin : Twin exact rest rest' reader other) {sigil : Sigil} {more : List Char}
    (starts : reader.unread = sigil.char :: more) (inside : rest.length < reader.unread.length) :
    ReadsItem exact rest rest' (reader.sigil sigil) (other.sigil sigil) := by
  intro spares told
  have kept := spares.before (steps_sigil (sigil_cases starts)).leads
  have stops := kept.looked
  have looked := twin.looked kept
  rw [sigil_eq] at spares told ⊢
  rw [sigil_eq]
  -- The characters behind the sigil are the same as far as the choice rests on them.
  obtain ⟨same, fits⟩ : SigilChoice.of sigil ((other.look 3).peek? 1) ((other.look 3).peek? 2) =
        SigilChoice.of sigil ((reader.look 3).peek? 1) ((reader.look 3).peek? 2) ∧
      (SigilChoice.of sigil ((reader.look 3).peek? 1) ((reader.look 3).peek? 2)).span +
        rest.length ≤ reader.unread.length := by
    obtain ⟨parts, parted⟩ | seen := stops
    · exact twin.choice_parted parts rfl starts inside spares.within (told parted)
    · have second : (other.look 3).peek? 1 = (reader.look 3).peek? 1 :=
        looked.peek? (show 1 + rest.length < reader.unread.length by omega)
      have third : (other.look 3).peek? 2 = (reader.look 3).peek? 2 :=
        looked.peek? (show 2 + rest.length < reader.unread.length by omega)
      have few := SigilChoice.span_le sigil ((reader.look 3).peek? 1) ((reader.look 3).peek? 2)
      rw [second, third]
      exact ⟨rfl, by omega⟩
  rw [same]
  exact readChoice looked fits inside spares told

/-! ## Items -/

/-- A dot with a digit behind it is read with the digit. -/
theorem length_number_dot {d : Char} {more : List Char} (unread : reader.unread = '.' :: d :: more)
    (digit : d.isDigit = true) : reader.number.2.unread.length + 2 ≤ reader.unread.length := by
  have noZero : reader.peek? 0 ≠ some '0' := by simp [Reader.peek?, unread]
  have noRadix : ¬opensRadix reader.unread = true := by
    rw [unread, Taking.opensRadix_other (by decide)]
    exact Bool.false_ne_true
  have whole : reader.run isDigitOrUnderscore = ([], reader.look 1) := by
    simp [Reader.run, unread, isDigitOrUnderscore, Char.isDigit, skip_zero]
  have first : (reader.look 1).peek? 0 = some '.' := by simp [Reader.peek?, Reader.look, unread]
  have second : (((reader.look 1).look 2).peek? 1).any Char.isDigit = true := by
    simp [Reader.peek?, Reader.look, unread, digit]
  have skipped : (((reader.look 1).look 2).skip 1).unread = d :: more := by
    simp [Reader.look, Reader.skip, unread]
  have accepted := isDigitOrUnderscore_of_isDigit digit
  have shorter := (advances_run skipped accepted).length_lt
  simp only [Reader.number, if_neg noZero, if_neg noRadix, whole, Reader.fraction, if_pos first,
    if_pos second]
  have passed := (passes_exponent
    ((((reader.look 1).look 2).skip 1).run isDigitOrUnderscore).2).suffix.length_le
  rw [skipped, List.length_cons] at shorter
  rw [unread, List.length_cons, List.length_cons]
  omega

theorem dot (twin : Twin exact rest rest' reader other) {more : List Char}
    (starts : reader.unread = '.' :: more) (inside : rest.length < reader.unread.length) :
    ReadsItem exact rest rest'
      (if ((reader.look 2).peek? 1).any Char.isDigit then (reader.look 2).numberToken
        else (reader.look 2).operator)
      (if ((other.look 2).peek? 1).any Char.isDigit then (other.look 2).numberToken
        else (other.look 2).operator) := by
  intro spares told
  have second (two : 1 + rest.length < reader.unread.length) :
      (other.look 2).peek? 1 = (reader.look 2).peek? 1 := twin.peek? two
  by_cases digit : ((reader.look 2).peek? 1).any Char.isDigit = true
  · rw [if_pos digit] at spares told ⊢
    obtain ⟨d, peeked, isDigit⟩ := (Option.any_eq_true ..).mp digit
    have one : (reader.look 2).unread = ['.'] ++ more := starts
    obtain ⟨behind, comes⟩ := unread_of_peek one peeked
    have long : (reader.look 2).number.2.unread.length + 2 ≤ reader.unread.length :=
      length_number_dot comes isDigit
    have within : rest.length ≤ (reader.look 2).number.2.unread.length := spares.within
    have looked : Twin exact rest rest' (reader.look 2) (other.look 2) :=
      twin.look fun _ => ⟨rfl, by omega⟩
    rw [second (by omega), if_pos digit]
    exact looked.numberToken inside spares told
  · rw [if_neg digit] at spares told ⊢
    have kept := spares.before (steps_operator _).leads
    have stops := kept.looked
    have looked := twin.looked kept
    have noDigit : ¬((other.look 2).peek? 1).any Char.isDigit = true := by
      by_cases two : 1 + rest.length < reader.unread.length
      · rwa [second two]
      · have parts := (stops.resolve_right (by omega)).1
        have ends : reader.unread.length = 1 + rest.length := by omega
        rw [(looked.parted_peek? parts ends).any (by decide)]
        exact Bool.false_ne_true
    rw [if_neg noDigit]
    exact looked.operator inside spares told

theorem scan (twin : Twin exact rest rest' reader other) (context : Context) {c : Char}
    {more : List Char} (starts : reader.unread = c :: more)
    (inside : rest.length < reader.unread.length) :
    ReadsSame exact rest rest' (reader.scan context c) (other.scan context c) := by
  simp only [Reader.scan]
  split
  · exact (twin.numberToken inside).same
  · split
    · exact (twin.quoted c inside).same
    · split
      · exact twin.word context.previous
      · split
        · next dollar => exact (twin.sigil (dollar ▸ starts) inside).same
        · split
          · next atSign => exact (twin.sigil (atSign ▸ starts) inside).same
          · split
            · exact (twin.operator inside).same
            · split
              · next point => exact (twin.dot (point ▸ starts) inside).same
              · split
                · next percent => exact (twin.sigil (percent ▸ starts) inside).same
                · split
                  · exact (pattern (twin.skip (by omega)) '/').same
                  · exact (twin.operator inside).same

end Twin

/-! ## Where nothing is read -/

theorem word_of_end {previous : Option Category}
    (ends : isEndWord (String.ofList reader.name.1) = true) : reader.word previous = none := by
  rw [isEndWord] at ends
  simp only [word, if_pos ends]

/-- Where nothing is read a word is looked for, and so it is in any text. -/
theorem scan_of_none {context : Context} {c : Char} (read : reader.scan context c = none) :
    reader.word context.previous = none ∧
      ∀ other : Reader, other.scan context c = other.word context.previous := by
  simp only [scan] at read ⊢
  split at read
  · contradiction
  · next noDigit =>
    split at read
    · contradiction
    · next noQuote =>
      split at read
      · next starts =>
        refine ⟨read, fun other => ?_⟩
        rw [if_neg noDigit, if_neg noQuote, if_pos starts]
      · repeat' split at read
        all_goals contradiction

end Reader

end SigilScript
