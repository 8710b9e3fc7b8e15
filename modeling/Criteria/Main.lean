import Criteria.CommandLine.Run

/-!
The program: reads the arguments and the file they name, and prints the outcome. Its exit code is 1
when the command fails and 2 when there is no command.
-/

namespace Criteria.CommandLine

/-- The text of a file, if it can be read as such. -/
def readFile? (path : String) : IO (Option String) := do
  try
    return some (← IO.FS.readFile path)
  catch _ =>
    return none

end Criteria.CommandLine

open Criteria CommandLine in
/-- Runs the program. -/
def main (arguments : List String) : IO UInt32 := do
  match CommandLine.read arguments with
  | .error .version =>
    IO.print versionText
    return 0
  | .error .help =>
    IO.print helpText
    return 0
  | .error .usage =>
    IO.eprint helpText
    return 2
  | .ok command =>
    match command.run (← readFile? command.config) with
    | .ok output =>
      IO.print output
      return 0
    | .error error =>
      IO.eprintln ("Error: " ++ error.inspect)
      return 1
