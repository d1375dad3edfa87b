import LinProg.Command

/-!
# The program

Reads the files that the arguments name, runs the command and prints its result.
-/

namespace LinProg

/-- The text of a file, if it can be read. -/
def readText (file : String) : IO (Option String) := do
  try return some (← IO.FS.readFile file) catch _ => return none

/-- The files that an invocation reads. -/
def Invocation.files : Option Invocation → List String
  | some (.perform command) => command.files
  | _ => []

end LinProg

open LinProg in
/-- Runs the command with the given arguments. -/
def main (arguments : List String) : IO UInt32 := do
  let invocation := Command.parse? arguments
  let texts ← (Invocation.files invocation).mapM fun file => return (file, ← readText file)
  let result := Invocation.run (fun file => (texts.lookup file).join) invocation
  (← IO.getStdout).putStr result.output
  (← IO.getStderr).putStr result.errors
  return result.code.toUInt32
