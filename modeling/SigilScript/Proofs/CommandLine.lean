import SigilScript.Command
import SigilScript.Proofs.Verdict

/-! # Runs of the command line

A run goes over its files one by one, and what it makes of one file is a report that depends on
nothing but the name and the content of this file. The reports are put together in the order of the
names, and the run fails where any of them does. The three commands go over a text in loops of their
own, and none of them looks at the answer of strict reading; they agree with it because every fault
of a text is met in its trees, and every fault of its scan among its lexemes.
-/

namespace SigilScript

/-! ## Reports -/

namespace Report

@[simp] theorem stdout_join (reports : List Report) :
    (join reports).stdout = String.join (reports.map stdout) := by
  induction reports with
  | nil => rfl
  | cons report reports ih =>
    rw [List.map_cons, String.join_cons, ← ih]
    rfl

@[simp] theorem stderr_join (reports : List Report) :
    (join reports).stderr = String.join (reports.map stderr) := by
  induction reports with
  | nil => rfl
  | cons report reports ih =>
    rw [List.map_cons, String.join_cons, ← ih]
    rfl

@[simp] theorem failed_join (reports : List Report) :
    (join reports).failed = reports.any failed := by
  induction reports with
  | nil => rfl
  | cons report reports ih =>
    rw [List.any_cons, ← ih]
    rfl

@[simp] theorem join_singleton (report : Report) : join [report] = report := by
  simp [join, append, empty]

end Report

/-- An exit code that says whether all went well. -/
def Signals (good : Prop) (code : Nat) : Prop := good ∧ code = 0 ∨ ¬ good ∧ code = 1

theorem Report.signals_exitCode {report : Report} {good : Prop}
    (sound : report.failed = false ↔ good) : Signals good report.exitCode := by
  rcases failed : report.failed with _ | _
  · exact .inl ⟨sound.mp failed, by simp [exitCode, failed]⟩
  · refine .inr ⟨fun well => ?_, by simp [exitCode, failed]⟩
    rw [sound.mpr well] at failed
    contradiction

namespace Command

/-! ## One text -/

/-- The trees of a text are printed without a failure exactly where strict reading accepts it. -/
theorem failed_parseReport (text : String) :
    (parseReport text).failed = false ↔ ∃ nodes, parseStrict text.toList = .ok nodes := by
  rw [exists_parseStrict_iff]
  simp [parseReport, Node.isSound]

/-- A text is listed without faults exactly where strict reading accepts it. -/
theorem failed_checkReport (path text : String) :
    (checkReport path text).failed = false ↔ ∃ nodes, parseStrict text.toList = .ok nodes := by
  rw [exists_parseStrict_iff, ← List.flatMap_eq_nil_iff, ← List.isEmpty_iff, checkReport]
  split
  · next sound => simp [sound, Report.reported]
  · next faulty =>
    rw [Bool.not_eq_true] at faulty
    simp only [faulty, Report.failed_join, Bool.false_eq_true, iff_false, Bool.not_eq_false,
      List.any_map]
    obtain ⟨fault, faults, same⟩ :=
      List.exists_cons_of_ne_nil (List.isEmpty_eq_false_iff.mp faulty)
    rw [same]
    rfl

/-- The lexemes of a text are listed without faults exactly where it is tokenized. -/
theorem failed_tokensReport (path text : String) :
    (tokensReport path text).failed = false ↔ ∃ tokens, tokenize text.toList = .ok tokens := by
  constructor
  · intro sound
    rcases read : tokenize text.toList with fault | tokens
    · obtain ⟨front, more, same⟩ := mapM_id_eq_error_iff.mp read
      have member : .error fault ∈ scan text.toList := by simp [same]
      have met : .error fault ∈ classifyAll (scan text.toList) := error_mem_classifyAfter member none
      simp only [tokensReport, Report.failed_join, List.any_map, List.any_eq_false] at sound
      exact absurd rfl (sound _ met)
    · exact ⟨tokens, rfl⟩
  · rintro ⟨tokens, read⟩
    rw [tokensReport, scan_of_tokenize read, classifyAll_ok]
    simp [Report.printed]

end Command

/-! ## Files -/

/-- What is read from a file, given the bytes of every file or why it cannot be read. -/
def textOf (files : String → Except ReadFault ByteArray) (path : String) :
    Except ReadFault String :=
  files path >>= decodeFile

/-- Whether a file can be read and its bytes are the encoding of a text. -/
def HoldsText (files : String → Except ReadFault ByteArray) (path text : String) : Prop :=
  ∃ bytes : ByteArray, files path = .ok bytes ∧ String.fromUTF8? bytes = some text

/-- Whether a file holds a text that strict reading accepts. -/
def Accepted (files : String → Except ReadFault ByteArray) (path : String) : Prop :=
  ∃ text nodes, HoldsText files path text ∧ parseStrict text.toList = .ok nodes

/-- Whether a file holds a text that is tokenized. -/
def Tokenized (files : String → Except ReadFault ByteArray) (path : String) : Prop :=
  ∃ text tokens, HoldsText files path text ∧ tokenize text.toList = .ok tokens

/-- What is printed and the exit code when a command of this name is run on files. -/
def runOn (files : String → Except ReadFault ByteArray) (name : String) (paths : List String) :
    Report × Nat :=
  (Invocation.ofArguments (name :: paths)).outcome (textOf files)

variable {files others : String → Except ReadFault ByteArray} {path name : String}
  {paths : List String} {command : Command}

theorem textOf_eq_ok_iff {text : String} :
    textOf files path = .ok text ↔ HoldsText files path text := by
  rw [textOf, HoldsText]
  rcases files path with fault | bytes
  · simp [bind, Except.bind]
  · rcases decoded : String.fromUTF8? bytes with _ | found
    · simp [bind, Except.bind, decodeFile, decoded]
    · simp [bind, Except.bind, decodeFile, decoded]

theorem Accepted.tokenized (accepted : Accepted files path) : Tokenized files path := by
  obtain ⟨text, nodes, holds, read⟩ := accepted
  obtain ⟨tokens, scanned, -⟩ := sound_of_parseStrict read
  exact ⟨text, tokens, holds, tokenize_of_scan scanned⟩

namespace Command

/-- A file that cannot be read fails, and a text fails as its own report says. -/
theorem failed_report (command : Command) (path : String) {good : String → Prop}
    (sound : ∀ text, (command.report path (.ok text)).failed = false ↔ good text) :
    (command.report path (textOf files path)).failed = false ↔
      ∃ text, HoldsText files path text ∧ good text := by
  rcases read : textOf files path with fault | text
  · have unread : (command.report path (.error fault)).failed = true := rfl
    simp [unread, ← textOf_eq_ok_iff, read]
  · simp [sound, ← textOf_eq_ok_iff, read]

theorem failed_report_parse (path : String) :
    (report .parse path (textOf files path)).failed = false ↔ Accepted files path := by
  rw [failed_report .parse path failed_parseReport]
  simp [Accepted]

theorem failed_report_check (path : String) :
    (report .check path (textOf files path)).failed = false ↔ Accepted files path := by
  rw [failed_report .check path (failed_checkReport path)]
  simp [Accepted]

theorem failed_report_tokens (path : String) :
    (report .tokens path (textOf files path)).failed = false ↔ Tokenized files path := by
  rw [failed_report .tokens path (failed_tokensReport path)]
  simp [Tokenized]

end Command

/-! ## Runs -/

/-- A command that is named with files is run on them. -/
theorem runOn_eq (named : Command.ofName? name = some command) (nonempty : paths ≠ []) :
    runOn files name paths =
      (.join (paths.map fun path => command.report path (textOf files path)),
        (Report.join (paths.map fun path => command.report path (textOf files path))).exitCode) := by
  have noHelp : ¬ (name = "--help" || name = "-h") = true := by
    rw [Bool.or_eq_true, decide_eq_true_iff, decide_eq_true_iff]
    rintro (rfl | rfl)
    · exact Option.some_ne_none command (named.symm.trans rfl)
    · exact Option.some_ne_none command (named.symm.trans rfl)
  have given : ¬ paths.isEmpty = true := fun empty => nonempty (List.isEmpty_iff.mp empty)
  simp only [runOn, Invocation.ofArguments, noHelp, given, named, Invocation.outcome,
    Bool.false_eq_true, ↓reduceIte]

theorem runOn_single (named : Command.ofName? name = some command) :
    runOn files name [path] = (command.report path (textOf files path),
      (command.report path (textOf files path)).exitCode) := by
  rw [runOn_eq named (List.cons_ne_nil _ _), List.map_singleton, Report.join_singleton]

/-- The exit code says whether all went well with every file. -/
theorem signals_runOn {good : String → Prop} (named : Command.ofName? name = some command)
    (nonempty : paths ≠ [])
    (sound : ∀ path, (command.report path (textOf files path)).failed = false ↔ good path) :
    Signals (∀ path ∈ paths, good path) (runOn files name paths).2 := by
  rw [runOn_eq named nonempty]
  refine Report.signals_exitCode ?_
  simp only [Report.failed_join, List.any_map, List.any_eq_false, Function.comp_apply,
    Bool.not_eq_true, sound]

/-- What a run prints is what it prints for each of its files alone, one after another. -/
theorem printed_runOn (named : Command.ofName? name = some command) (nonempty : paths ≠ []) :
    (runOn files name paths).1.stdout =
        String.join (paths.map fun path => (runOn files name [path]).1.stdout) ∧
      (runOn files name paths).1.stderr =
        String.join (paths.map fun path => (runOn files name [path]).1.stderr) := by
  rw [runOn_eq named nonempty]
  simp only [runOn_single named, Report.stdout_join, Report.stderr_join, List.map_map,
    Function.comp_def, and_self]

theorem runOn_congr (named : Command.ofName? name = some command)
    (same : others path = files path) : runOn others name [path] = runOn files name [path] := by
  rw [runOn_single named, runOn_single named, textOf, textOf, same]

/-- On one or more files the exit codes of `parse` and `check` are equal, and say whether every file
holds a text that strict reading accepts; that of `tokens` says whether every file holds a text that
is tokenized, so where it fails `check` fails, too. What each of them prints is what it prints for
each file alone, one after another; and that depends on no other file. -/
theorem runs_agree_and_are_isolated (files : String → Except ReadFault ByteArray)
    {paths : List String} (nonempty : paths ≠ []) :
    (runOn files "parse" paths).2 = (runOn files "check" paths).2 ∧
    Signals (∀ path ∈ paths, Accepted files path) (runOn files "check" paths).2 ∧
    Signals (∀ path ∈ paths, Tokenized files path) (runOn files "tokens" paths).2 ∧
    ((runOn files "tokens" paths).2 = 1 → (runOn files "check" paths).2 = 1) ∧
    ∀ name ∈ ["parse", "check", "tokens"],
      (runOn files name paths).1.stdout =
        String.join (paths.map fun path => (runOn files name [path]).1.stdout) ∧
      (runOn files name paths).1.stderr =
        String.join (paths.map fun path => (runOn files name [path]).1.stderr) ∧
      ∀ (path : String) (others : String → Except ReadFault ByteArray),
        others path = files path → runOn others name [path] = runOn files name [path] := by
  have parses : Signals (∀ path ∈ paths, Accepted files path) (runOn files "parse" paths).2 :=
    signals_runOn rfl nonempty Command.failed_report_parse
  have checks : Signals (∀ path ∈ paths, Accepted files path) (runOn files "check" paths).2 :=
    signals_runOn rfl nonempty Command.failed_report_check
  have tokenizes : Signals (∀ path ∈ paths, Tokenized files path) (runOn files "tokens" paths).2 :=
    signals_runOn rfl nonempty Command.failed_report_tokens
  refine ⟨?_, checks, tokenizes, fun failing => ?_, fun name member => ?_⟩
  · rcases checks with ⟨good, code⟩ | ⟨bad, code⟩
    · rw [code, (parses.resolve_right fun other => other.1 good).2]
    · rw [code, (parses.resolve_left fun other => bad other.1).2]
  · rcases tokenizes with ⟨-, code⟩ | ⟨bad, -⟩
    · rw [code] at failing
      contradiction
    · exact (checks.resolve_left fun other =>
        bad fun path member => (other.1 path member).tokenized).2
  · obtain ⟨command, named⟩ : ∃ command, Command.ofName? name = some command := by
      simp only [List.mem_cons, List.not_mem_nil, or_false] at member
      rcases member with rfl | rfl | rfl
      · exact ⟨.parse, rfl⟩
      · exact ⟨.check, rfl⟩
      · exact ⟨.tokens, rfl⟩
    exact ⟨(printed_runOn named nonempty).1, (printed_runOn named nonempty).2,
      fun path others same => runOn_congr named same⟩

/-- A file that is no text makes every run fail, and leaves alone what is listed for the other. -/
theorem runs_agree_and_are_isolated_undecodable :
    ∃ files : String → Except ReadFault ByteArray,
      Accepted files "one" ∧ ¬ Tokenized files "two" ∧
      (runOn files "parse" ["one", "two"]).2 = 1 ∧ (runOn files "check" ["one", "two"]).2 = 1 ∧
      (runOn files "tokens" ["one", "two"]).2 = 1 ∧
      (runOn files "check" ["one", "two"]).1.stderr =
        (runOn files "check" ["one"]).1.stderr ++ (runOn files "check" ["two"]).1.stderr ∧
      (runOn files "check" ["one"]).1.stderr = "one: ok (1 statement(s))\n" := by
  let files (path : String) : Except ReadFault ByteArray :=
    if path = "one" then .ok "1;".toUTF8 else if path = "two" then .ok ⟨#[0xff]⟩
    else .error .missing
  have accepted : Accepted files "one" :=
    ⟨"1;", [.number "1"], ⟨_, rfl, by decide +kernel⟩, by with_unfolding_all rfl⟩
  have undecoded : ¬ Tokenized files "two" := by
    rintro ⟨text, tokens, ⟨bytes, same, decoded⟩, -⟩
    obtain rfl := Except.ok.inj same
    exact Option.some_ne_none text (decoded.symm.trans (by decide +kernel))
  obtain ⟨agree, -, tokenizes, implies, prints⟩ :=
    runs_agree_and_are_isolated files (List.cons_ne_nil "one" ["two"])
  have failing : (runOn files "tokens" ["one", "two"]).2 = 1 :=
    (tokenizes.resolve_left fun good => undecoded (good.1 "two" (by simp))).2
  refine ⟨files, accepted, undecoded, agree.trans (implies failing), implies failing, failing, ?_,
    by decide +kernel⟩
  rw [(prints "check" (by simp)).2.1]
  simp

end SigilScript
