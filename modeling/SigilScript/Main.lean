import SigilScript.Command

/-! # The program

Reads the files that the command line names, and prints what the command makes of them.
-/

open SigilScript

/-- The content of a file. -/
def readContent (path : String) : IO (Except ReadFault String) := do
  try
    return decodeFile (← IO.FS.readBinFile path)
  catch
    | .noFileOrDirectory .. => return .error .missing
    | other => return .error (.other (toString other))

/-- Run the command line and exit with its code. -/
def main (arguments : List String) : IO UInt32 := do
  let invocation := Invocation.ofArguments arguments
  let paths := match invocation with
    | .run _ paths => paths
    | _ => []
  let contents ← paths.mapM fun path => return (path, ← readContent path)
  let content (path : String) := (contents.lookup path).getD (.error .missing)
  let (report, code) := invocation.outcome content
  IO.print report.stdout
  IO.eprint report.stderr
  return code.toUInt32
