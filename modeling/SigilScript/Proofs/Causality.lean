import Mathlib.Data.Seq.Basic
import SigilScript.Proofs.Answers
import SigilScript.Proofs.Scan.Unseen

/-! # Streams are read causally

What a call answers on a stream rests on nothing but the characters it has pulled: another stream
that begins with them is answered just so, and as many characters are pulled from it. Two streams
may differ in everything that was not pulled; either may end there, or go on forever.
-/

namespace SigilScript

variable {front rest : List Char} {calls call : Nat}

/-! ## Texts that begin alike -/

open Scanner

/-- Texts whose first calls answer the same begin with the same items. -/
theorem take_scan_alike {text text' : List Char}
    (same : ∀ earlier < calls, answer text' earlier = answer text earlier) :
    (scan text').take calls = (scan text).take calls := by
  apply List.ext_getElem?
  intro index
  rw [List.getElem?_take, List.getElem?_take, getElem?_scan, getElem?_scan]
  split
  · next before => exact same index before
  · rfl

/-- A call that has not seen the end answers the same whatever the end is, and pulls as much. -/
theorem answerAt_unseen {rest' : List Char}
    (spares : (answerAt (front ++ rest) call).reader.Spares rest rest' true) :
    (answerAt (front ++ rest') call).statement = (answerAt (front ++ rest) call).statement ∧
      Reader.Twin true rest rest' (answerAt (front ++ rest) call).reader
        (answerAt (front ++ rest') call).reader := by
  obtain ⟨twin, same⟩ := called_unseen spares
  have items := take_scan_alike same
  have asked : askedBy (front ++ rest') call = askedBy (front ++ rest) call ∧
      (askedStatements (classifyAll (scan (front ++ rest'))))[call]? =
        (askedStatements (classifyAll (scan (front ++ rest))))[call]? := by
    cases found : (askedStatements (classifyAll (scan (front ++ rest))))[call]? with
    | none =>
      -- The call has asked for all items, so the scans are the same to their ends.
      have whole : scan (front ++ rest') = scan (front ++ rest) := by
        refine eq_of_take_alike items ?_
        rw [askedBy, found]
        exact Nat.lt_succ_self _
      simp only [askedBy, whole, found, and_self]
    | some entry =>
      obtain ⟨node, asked⟩ := entry
      have few : askedBy (front ++ rest) call = asked := by
        rw [askedBy, found]
        rfl
      rw [few] at items
      have alike : (classifyAll (scan (front ++ rest'))).take asked =
          (classifyAll (scan (front ++ rest))).take asked := by
        simp only [classifyAll, ← classifyAfter_take, items]
      have found' := askedStatements_alike found alike
      rw [askedBy, found', few]
      exact ⟨rfl, rfl⟩
  obtain ⟨asked, found⟩ := asked
  simp only [answerAt, asked, found, true_and]
  exact twin.reader

/-- What a caller can tell of an answer: the statement, how many characters were pulled by then, and
whether the end was seen. -/
def Answer.seen (answer : Answer) : Option Node × Nat × Bool :=
  (answer.statement, answer.reader.pulled, answer.reader.ended)

/-- No call has pulled more than there is. -/
theorem pulled_le_length {text : List Char} {answer : Answer}
    (member : answer ∈ answers text calls) :
    answer.reader.pulled ≤ text.length := by
  rw [answers_eq] at member
  obtain ⟨call, -, rfl⟩ := List.mem_map.mp member
  exact (called_progress text _).1.pulled

theorem answers_unseen (calls : Nat) (front rest rest' : List Char)
    (unseen : ∀ answer ∈ answers (front ++ rest) calls,
      answer.reader.pulled ≤ front.length ∧ answer.reader.ended = false) :
    (answers (front ++ rest') calls).map Answer.seen =
      (answers (front ++ rest) calls).map Answer.seen := by
  rw [answers_eq] at unseen
  rw [answers_eq, answers_eq, List.map_map, List.map_map]
  refine List.map_congr_left fun call member => ?_
  obtain ⟨few, unended⟩ := unseen _ (List.mem_map_of_mem member)
  obtain ⟨statement, twin⟩ := answerAt_unseen (spares_of_pulled rest' unended few)
  simp only [Function.comp_apply, Answer.seen, statement, Reader.pulled, twin.consumed, twin.ahead,
    twin.ended]

/-- Calls that have not seen the end, nor pulled more than so many characters, answer the same on
every text that begins with these. -/
theorem answers_alike {text text' : List Char} {few : Nat} (alike : text'.take few = text.take few)
    (unseen : ∀ answer ∈ answers text calls,
      answer.reader.pulled ≤ few ∧ answer.reader.ended = false) :
    (answers text' calls).map Answer.seen = (answers text calls).map Answer.seen := by
  have same := answers_unseen calls (text.take few) (text.drop few) (text'.drop few)
  rw [← alike, List.take_append_drop, alike, List.take_append_drop, List.length_take] at same
  exact same fun answer member =>
    ⟨le_min (unseen answer member).1 (pulled_le_length member), (unseen answer member).2⟩

/-! ## Streams -/

/-- What the first calls answer on a stream, finite or not: what they answer on a beginning of it
that they do not see the end of, or that is all of it. -/
def AnswersOn (source : Stream'.Seq Char) (calls : Nat) (found : List Answer) : Prop :=
  ∃ length, found = answers (source.take length) calls ∧
    (source.TerminatedAt length ∨ ∀ answer ∈ found, answer.reader.ended = false)

namespace Stream

/-- The characters of a stream, one by one. -/
def source (stream : Stream) : Stream'.Seq Char where
  val index :=
    if stream.goesOn then stream.unit[index % stream.unit.length]? else stream.unit[index]?
  property := by
    intro index ended
    cases goesOn : stream.goesOn with
    | false =>
      simp only [goesOn, Bool.false_eq_true, ↓reduceIte, List.getElem?_eq_none_iff] at ended ⊢
      exact Nat.le_succ_of_le ended
    | true =>
      have nonempty : 0 < stream.unit.length := by
        simp only [Stream.goesOn, Bool.and_eq_true, Bool.not_eq_true',
          List.isEmpty_eq_false_iff] at goesOn
        exact List.length_pos_iff.mpr goesOn.2
      simp only [goesOn, ↓reduceIte, List.getElem?_eq_none_iff] at ended
      exact absurd (Nat.mod_lt _ nonempty) (Nat.not_lt.mpr ended)

theorem getElem?_rounds (unit : List Char) (rounds index : Nat)
    (inside : index < rounds * unit.length) :
    (List.replicate rounds unit).flatten[index]? = unit[index % unit.length]? := by
  induction rounds generalizing index with
  | zero => omega
  | succ rounds ih =>
    rw [List.replicate_succ, List.flatten_cons]
    by_cases first : index < unit.length
    · rw [List.getElem?_append_left first, Nat.mod_eq_of_lt first]
    · have behind := Nat.le_of_not_lt first
      rw [Nat.succ_mul] at inside
      rw [List.getElem?_append_right behind, ih _ (by omega), ← Nat.mod_eq_sub_mod behind]

/-- A beginning of a stream is so many of its characters, and all of them where it does not go on.
-/
theorem beginning_eq (stream : Stream) (rounds : Nat) : ∃ length,
    stream.beginning rounds = stream.source.take length ∧
      (stream.goesOn = false → stream.source.TerminatedAt length) := by
  cases goesOn : stream.goesOn with
  | true =>
    have endless : stream.endless = true := by
      simp only [Stream.goesOn, Bool.and_eq_true] at goesOn
      exact goesOn.1
    refine ⟨rounds * stream.unit.length, ?_, nofun⟩
    apply List.ext_getElem?
    intro index
    rw [Stream'.Seq.getElem?_take, beginning, if_pos endless]
    split
    · next inside =>
      rw [getElem?_rounds _ _ _ inside]
      exact (if_pos goesOn).symm
    · next outside => simpa using Nat.le_of_not_lt outside
  | false =>
    have all : stream.beginning rounds = stream.unit := by
      rw [beginning]
      split
      · next endless =>
        have empty : stream.unit = [] := by simpa [Stream.goesOn, endless] using goesOn
        simp [empty]
      · rfl
    have at' (index : Nat) : stream.source.get? index = stream.unit[index]? :=
      if_neg (Bool.not_eq_true _ ▸ goesOn)
    refine ⟨stream.unit.length, ?_, fun _ => ?_⟩
    · rw [all]
      apply List.ext_getElem?
      intro index
      rw [Stream'.Seq.getElem?_take, at']
      split
      · rfl
      · next outside => exact List.getElem?_eq_none (Nat.le_of_not_lt outside)
    · rw [Stream'.Seq.TerminatedAt, at']
      exact List.getElem?_eq_none (Nat.le_refl _)

/-- The answers that were found without seeing the end of what was read of an endless stream are
what the calls answer on it. -/
theorem answersOn_answersWithin (stream : Stream) (doublings rounds : Nat)
    (settled : stream.goesOn = true →
      ∀ answer ∈ stream.answersWithin calls doublings rounds, answer.reader.ended = false) :
    AnswersOn stream.source calls (stream.answersWithin calls doublings rounds) := by
  have within : ∃ rounds', stream.answersWithin calls doublings rounds =
      SigilScript.answers (stream.beginning rounds') calls := by
    clear settled
    induction doublings generalizing rounds with
    | zero => exact ⟨rounds, rfl⟩
    | succ doublings ih =>
      rw [answersWithin]
      split
      · exact ih _
      · exact ⟨rounds, rfl⟩
  obtain ⟨rounds', same⟩ := within
  obtain ⟨length, text, ended⟩ := stream.beginning_eq rounds'
  refine ⟨length, by rw [same, text], ?_⟩
  cases goesOn : stream.goesOn with
  | true => exact .inr (settled goesOn)
  | false => exact .inl (ended goesOn)

end Stream

/-- A longer beginning of a stream begins with a shorter one. -/
theorem take_take_of_le (source : Stream'.Seq Char) {short long : Nat} (le : short ≤ long) :
    (source.take long).take short = source.take short := by
  apply List.ext_getElem?
  intro index
  simp only [List.getElem?_take, Stream'.Seq.getElem?_take]
  split
  · next before => rw [if_pos (Nat.lt_of_lt_of_le before le)]
  · rfl

/-- A stream that has ended goes on with nothing. -/
theorem take_terminated {source : Stream'.Seq Char} {short long : Nat}
    (ended : source.TerminatedAt short) (le : short ≤ long) :
    source.take long = source.take short := by
  apply List.ext_getElem?
  intro index
  simp only [Stream'.Seq.getElem?_take]
  by_cases before : index < short
  · rw [if_pos before, if_pos (Nat.lt_of_lt_of_le before le)]
  · rw [if_neg before, source.terminated_stable (Nat.le_of_not_lt before) ended, ite_self]

/-- What was answered on a stream is answered on every beginning of it that is long enough. -/
theorem AnswersOn.settled {source : Stream'.Seq Char} {found : List Answer}
    (answered : AnswersOn source calls found) : ∃ enough, ∀ length, enough ≤ length →
      (answers (source.take length) calls).map Answer.seen = found.map Answer.seen := by
  obtain ⟨enough, rfl, ended | unended⟩ := answered
  · exact ⟨enough, fun length le => by rw [take_terminated ended le]⟩
  · refine ⟨enough, fun length le => ?_⟩
    have alike : (source.take length).take enough = (source.take enough).take enough := by
      rw [take_take_of_le source le, take_take_of_le source (Nat.le_refl enough)]
    exact answers_alike alike fun answer member =>
      ⟨(pulled_le_length member).trans Stream'.Seq.length_take_le, unended answer member⟩

/-- Answers that look the same to a caller have pulled as much and have seen the end alike. -/
theorem forall_of_seen {found found' : List Answer} {beginning : Nat}
    (same : found'.map Answer.seen = found.map Answer.seen)
    (unseen : ∀ answer ∈ found, answer.reader.pulled ≤ beginning ∧ answer.reader.ended = false) :
    ∀ answer ∈ found', answer.reader.pulled ≤ beginning ∧ answer.reader.ended = false := by
  have all : ∀ seen ∈ found'.map Answer.seen, seen.2.1 ≤ beginning ∧ seen.2.2 = false := by
    rw [same]
    exact List.forall_mem_map.mpr unseen
  exact List.forall_mem_map.mp all

/-- Where the calls on a stream have pulled no more than its first characters and have not seen its
end, they answer the same statements on every stream that begins with these, and pull as much of it.
-/
theorem answersOn_causal {source other : Stream'.Seq Char} {beginning : Nat} {found : List Answer}
    (agree : other.take beginning = source.take beginning) (answered : AnswersOn source calls found)
    (unseen : ∀ answer ∈ found, answer.reader.pulled ≤ beginning ∧ answer.reader.ended = false) :
    (∃ found', AnswersOn other calls found') ∧
      ∀ found', AnswersOn other calls found' →
        found'.map Answer.seen = found.map Answer.seen := by
  obtain ⟨enough, settled⟩ := answered.settled
  have same (length : Nat) (far : enough ≤ length) (beyond : beginning ≤ length) :
      (answers (other.take length) calls).map Answer.seen = found.map Answer.seen := by
    have alike : (other.take length).take beginning = (source.take length).take beginning := by
      rw [take_take_of_le other beyond, take_take_of_le source beyond, agree]
    rw [← settled length far]
    exact answers_alike alike (forall_of_seen (settled length far) unseen)
  refine ⟨⟨_, max enough beginning, rfl, .inr fun answer member => ?_⟩, fun found' answered' => ?_⟩
  · exact (forall_of_seen (same _ (le_max_left ..) (le_max_right ..)) unseen answer member).2
  · obtain ⟨enough', settled'⟩ := answered'.settled
    rw [← settled' (max (max enough enough') beginning) (by omega)]
    exact same _ (by omega) (le_max_right ..)

/-- The first statement of an endless stream is settled by four characters, so it is also the first
of a text that goes on from them with a string that is never closed. -/
theorem answersOn_causal_endless :
    ∃ (source other : Stream'.Seq Char) (found : List Answer),
      (∀ length, ¬ source.TerminatedAt length) ∧ other.TerminatedAt 5 ∧
      found.map Answer.seen = [(some (.number "1"), 4, false)] ∧ AnswersOn source 1 found ∧
      (∃ found', AnswersOn other 1 found') ∧
        ∀ found', AnswersOn other 1 found' → found'.map Answer.seen = found.map Answer.seen := by
  have answered : AnswersOn (.ofStream fun index => if index % 2 = 0 then '1' else ';') 1
      (answers "1;1;".toList 1) :=
    ⟨4, rfl, .inr (by decide +kernel)⟩
  have agree : (Stream'.Seq.ofList "1;1;\"".toList).take 4 =
      (Stream'.Seq.ofStream fun index => if index % 2 = 0 then '1' else ';').take 4 := rfl
  refine ⟨_, _, _, ?_, ?_, ?_, answered, answersOn_causal agree answered ?_⟩
  · exact fun length => Option.some_ne_none _
  · rfl
  · with_unfolding_all rfl
  · decide +kernel

end SigilScript
