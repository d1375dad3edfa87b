import LinProg.Command.Arguments
import LinProg.Command.Report
import LinProg.Json.Decode
import LinProg.Json.Encode

/-!
# The command

What the command prints and with which code it ends, as a function of its arguments and of the texts
of the files it reads.
-/

namespace LinProg

namespace Command

/-- What a command leaves behind. -/
structure Result where
  /-- The exit code. -/
  code : Nat
  /-- What is printed as output. -/
  output : String
  /-- What is printed as error messages. -/
  errors : String
deriving Repr, DecidableEq

/-- Why a command ends early. -/
inductive Stop where
  /-- It prints a message. -/
  | told (message : String)
  /-- A position lies outside a list. -/
  | outOfRange

/-- The result of a command that ends early. -/
def Stop.result : Stop → Result
  | .told message => ⟨1, "", message ++ "\n"⟩
  | .outOfRange => ⟨101, "", "position out of range\n"⟩

/-- The result for arguments that ask for nothing the command can do. -/
def usageError : Result := ⟨2, "", "error: the arguments were not understood\n"⟩

/-- The description of the arguments. -/
def help : Result :=
  ⟨0, "Usage: linprog [-v | -q] COMMAND\n\n"
    ++ "  solve FILE [--format pretty|json] [--trace]     solve a linear program\n"
    ++ "  integer FILE [--format pretty|json]             solve it with whole values\n"
    ++ "  update PROBLEM REQUEST [--format pretty|json]   solve it, revise it, solve it again\n",
    ""⟩

/-- A refusal is told under a heading. -/
def orTell {β : Type} (heading : String) : Outcome β → Except Stop β
  | .ok value => .ok value
  | .error (.refused cause) => .error (.told (heading ++ ": " ++ cause.message))
  | .error .outOfRange => .error .outOfRange

/-- The value that a file holds. Its numerals are read by scaling. -/
def readFile {β : Type} (read : String → Option String) (ofJson? : Json → Option β)
    (file : String) : Except Stop β :=
  match read file with
  | none => .error (.told ("Error reading " ++ file ++ ": the file cannot be read"))
  | some text =>
    match Json.readAs? Numeral.scaled ofJson? text with
    | none => .error (.told ("Error parsing " ++ file ++ ": the text is not as expected"))
    | some value => .ok value

/-- The tableau of a problem. -/
def tableauOf (p : Problem Float) : Except Stop (Tableau Float) :=
  orTell "Invalid problem" p.toTableau

/-- The search among all points with the required whole values. -/
def search : BranchAndBound Float := { incumbent := some Double.negativeInfinity }

/-- Lines as a text. -/
def ofLines (lines : List String) : String := String.join (lines.map (· ++ "\n"))

/-- A document as a text. -/
def ofDocument (document : Json) : String := document.render 0 ++ "\n"

/-- The exit code for a solution. -/
def exitCode (s : Solution Float) : Nat := if s.isOptimal then 0 else 1

/-- The result of a command, unless it ends early. -/
def execute (read : String → Option String) : Command → Except Stop Result
  | .solve file format trace => do
    let problem ← readFile read Problem.ofJson? file
    let tableau ← tableauOf problem
    let solution ← orTell "Solver error" (Solver.solve {} tableau).outcome
    let output ← match format with
      | .json => pure (ofDocument solution.toJson)
      | .pretty => ofLines <$> orTell "" (Report.solutionLines problem solution trace)
    return ⟨exitCode solution, output, ""⟩
  | .integer file format => do
    let problem ← readFile read Problem.ofJson? file
    let tableau ← tableauOf problem
    let solution ← orTell "Branch-and-Bound error"
      (search.solve tableau problem.integerRequirements).outcome
    let output := match format with
      | .json => ofDocument solution.toJson
      | .pretty => ofLines (Report.integerLines problem solution)
    return ⟨0, output, ""⟩
  | .update problemFile requestFile format => do
    let problem ← readFile read Problem.ofJson? problemFile
    let request ← readFile read Request.ofJson? requestFile
    let tableau ← tableauOf problem
    let first ← orTell "Solver error" (Solver.solve {} tableau).outcome
    let snapshot ← orTell "Cannot update" first.snapshot
    let updated ← orTell "Update error"
      (Solver.update {} snapshot (problem.tableauRequest request)).outcome
    let output ← match format with
      | .json => pure (ofDocument updated.toJson)
      | .pretty => ofLines <$> orTell "" (Report.updateLines problem first updated)
    return ⟨exitCode updated, output, ""⟩

/-- The result of a command. -/
def run (read : String → Option String) (command : Command) : Result :=
  match execute read command with
  | .ok result => result
  | .error stop => stop.result

end Command

/-- The result of an invocation, or of arguments that ask for none. -/
def Invocation.run (read : String → Option String) : Option Invocation → Command.Result
  | none => Command.usageError
  | some .help => Command.help
  | some (.perform command) => command.run read

end LinProg
