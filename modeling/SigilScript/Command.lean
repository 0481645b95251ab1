import SigilScript.Node.Form
import SigilScript.Program

/-! # The command line

Three commands go over files in the order they are named: one prints the tree of every statement,
one lists the faults with their places, one lists the lexemes. A file that cannot be read, or
holds a fault, makes the run fail without touching what is printed for the others.
-/

namespace SigilScript

/-- What a command does to a file. -/
inductive Command where
  | parse
  | check
  | tokens
deriving DecidableEq, Repr, Inhabited

/-- The command of a name. -/
def Command.ofName? : String → Option Command
  | "parse" => some .parse
  | "check" => some .check
  | "tokens" => some .tokens
  | _ => none

/-- Why a file could not be read. -/
inductive ReadFault where
  | missing
  | notText
  | other (reason : String)
deriving DecidableEq, Repr, Inhabited

/-- The wording of a failed read. -/
def ReadFault.message : ReadFault → String
  | .missing => "No such file or directory (os error 2)"
  | .notText => "stream did not contain valid UTF-8"
  | .other reason => reason

/-- The text of a file from its bytes. -/
def decodeFile (bytes : ByteArray) : Except ReadFault String :=
  match String.fromUTF8? bytes with
  | some text => .ok text
  | none => .error .notText

/-- What was printed, and whether anything failed. -/
structure Report where
  stdout : String
  stderr : String
  failed : Bool
deriving DecidableEq, Repr, Inhabited

namespace Report

/-- Nothing was printed and nothing failed. -/
def empty : Report := ⟨"", "", false⟩

/-- One report after another. -/
def append (first second : Report) : Report :=
  ⟨first.stdout ++ second.stdout, first.stderr ++ second.stderr, first.failed || second.failed⟩

/-- A line on the standard output. -/
def printed (line : String) : Report := ⟨line ++ "\n", "", false⟩

/-- A line on the standard error, of something that failed or not. -/
def reported (line : String) (failed : Bool) : Report := ⟨"", line ++ "\n", failed⟩

/-- Several reports, one after another. -/
def join (reports : List Report) : Report := reports.foldr append empty

/-- The exit code of a run. -/
def exitCode (report : Report) : Nat := if report.failed then 1 else 0

end Report

namespace Command

/-- The trees of a text; a tree with a fault fails. -/
def parseReport (text : String) : Report :=
  .join ((SigilScript.parse text.toList).map fun node =>
    ⟨node.pretty ++ "\n", "", !node.isSound⟩)

/-- The faults of a text, or the number of its statements where there are none. -/
def checkReport (path text : String) : Report :=
  let nodes := SigilScript.parse text.toList
  let faults := nodes.flatMap Node.faults
  if faults.isEmpty then
    .reported (path ++ ": ok (" ++ toString nodes.length ++ " statement(s))") false
  else
    .join (faults.map fun fault =>
      .reported (path ++ ":" ++ fault.position.short ++ ": " ++ fault.cause.message) true)

/-- The lexemes of a text, and its scan faults. -/
def tokensReport (path text : String) : Report :=
  .join ((classifyAll (scan text.toList)).map fun item =>
    match item with
    | .ok lexeme =>
      .printed (lexeme.position.short ++ "\t" ++ lexeme.category.name ++ "\t" ++ lexeme.text)
    | .error fault => .reported (path ++ ": " ++ fault.message) true)

/-- What a command prints for one file. -/
def report (command : Command) (path : String) (content : Except ReadFault String) : Report :=
  match content with
  | .error fault => .reported (path ++ ": " ++ fault.message) true
  | .ok text =>
    match command with
    | .parse => parseReport text
    | .check => checkReport path text
    | .tokens => tokensReport path text

end Command

/-- How the program is called, line by line. -/
def usageLines : List String :=
  ["Usage: perlish <command> [files...]",
   "",
   "Commands:",
   "  parse   Print the syntax tree of each statement",
   "  check   Report syntax errors with their positions",
   "  tokens  Print the classified lexeme stream",
   "",
   "Examples:",
   "  perlish parse script.pl",
   "  RUST_LOG=debug perlish check lib/*.pm"]

/-- What the program is asked for. -/
inductive Invocation where
  | usage
  | unknownCommand (name : String)
  | noFiles
  | run (command : Command) (paths : List String)
deriving DecidableEq, Repr, Inhabited

/-- Read the arguments: asking for help wins over everything, and a command over its files. -/
def Invocation.ofArguments : List String → Invocation
  | [] => .usage
  | name :: paths =>
    if name = "--help" || name = "-h" then .usage
    else
      match Command.ofName? name with
      | none => .unknownCommand name
      | some command => if paths.isEmpty then .noFiles else .run command paths

/-- What is printed and the exit code, given the content of every file. -/
def Invocation.outcome (invocation : Invocation)
    (content : String → Except ReadFault String) : Report × Nat :=
  match invocation with
  | .usage => (.join (usageLines.map fun line => .reported line true), 2)
  | .unknownCommand name => (.reported ("Unknown command: " ++ name) true, 2)
  | .noFiles => (.reported "Error: no files specified" true, 2)
  | .run command paths =>
    let report := Report.join (paths.map fun path => command.report path (content path))
    (report, report.exitCode)

end SigilScript
