import LinProg.Arithmetic.Double
import LinProg.BranchAndBound
import LinProg.Decimal.Fixed
import LinProg.Problem

/-!
# Reports

Solutions as they are written for people, line by line. Amounts have four decimal places. Names
stand to the left and amounts to the right of columns of fixed width; what is wider is written in
full.
-/

namespace LinProg

/-- A text with blanks after it, up to a width. -/
def padRight (width : Nat) (text : String) : String :=
  text ++ String.ofList (List.replicate (width - text.length) ' ')

/-- A text with blanks before it, up to a width. -/
def padLeft (width : Nat) (text : String) : String :=
  String.ofList (List.replicate (width - text.length) ' ') ++ text

namespace Report

/-- An amount with four decimal places. -/
def amount (value : Float) : String := Double.fixedText 4 value

/-- A line with a name and an amount. -/
def entry (name : String) (value : Float) : String :=
  "  " ++ padRight 20 name ++ " " ++ padLeft 12 (amount value)

/-- The lines of the basic solution of a tableau. -/
def valueLines (t : Tableau Float) : Outcome (List String) := do
  return (← t.values).map fun (name, value) => entry name value

/-- The line of a pivot, counted from one. -/
def stepLine (number : Nat) (s : Step Float) : String :=
  "  " ++ padLeft 3 (toString number) ++ " " ++ s.rule.name ++ ": " ++ s.entering ++ " enters, "
    ++ s.leaving ++ " leaves (row " ++ toString s.row ++ ", element " ++ amount s.element ++ ")"

/-- The lines of all pivots. -/
def traceLines (steps : List (Step Float)) : List String :=
  "Pivots:" :: (steps.zipIdx.map fun (step, i) => stepLine (i + 1) step) ++ [""]

/-- The lines of another optimum. -/
def alternateLines (a : Alternate Float) : Outcome (List String) := do
  return "" :: ("Alternate optimum (" ++ a.entering ++ " enters, " ++ a.leaving ++ " leaves):") ::
    (← valueLines a.tableau)

/-- The line of a shadow price, under the label of its row if there is one. -/
def shadowLine (labels : List String) (p : ShadowPrice Float) : String :=
  "  " ++ padRight 20 (labels[p.row]?.getD p.slack) ++ " " ++ padRight 4 p.slack ++ " "
    ++ padLeft 12 (amount p.value)

/-- The lines of an optimal solution. -/
def optimalLines (p : Problem Float) (s : Solution Float) : Outcome (List String) := do
  let values ← valueLines s.tableau
  let alternates ← s.alternates.mapM alternateLines
  let degenerate :=
    if s.degenerate.isEmpty then []
    else ["", "Degenerate basic variables: " ++ String.intercalate ", " s.degenerate]
  let nonbasic := s.analysis.variableCosts.filter fun c => !c.isBasic
  return ["Status: OPTIMAL", "Objective: " ++ amount (p.objectiveValue s.objective),
      "Pivots: " ++ toString s.pivots, "", "Variables:"]
    ++ values ++ degenerate ++ alternates.flatten
    ++ ["", "Shadow prices:"] ++ s.analysis.shadowPrices.map (shadowLine p.rowLabels)
    ++ ["", "Reduced costs:"] ++ nonbasic.map fun c => entry c.name c.reduced

/-- The lines of a solution of any status, after the lines of its pivots if they are wanted. -/
def solutionLines (p : Problem Float) (s : Solution Float) (trace : Bool) :
    Outcome (List String) := do
  let status ← match s.status with
    | .optimal => optimalLines p s
    | .unbounded _ name =>
      pure ["Status: UNBOUNDED", name ++ " can increase without limit."]
    | .infeasible _ name =>
      pure ["Status: INFEASIBLE", "Row of " ++ name ++ " cannot be made non-negative."]
  return (if trace then traceLines s.steps else []) ++ status

/-- The lines of a solution with whole values, in the order of the variables of the problem. -/
def integerLines (p : Problem Float) (s : IntegerSolution Float) : List String :=
  ["Status: OPTIMAL", "Objective: " ++ amount (p.objectiveValue s.objective),
    "Nodes: " ++ toString s.nodes, "", "Variables:"]
  ++ p.names.filterMap fun name =>
    (s.assignment.lookup name).map fun value => entry name value

/-- The lines of a solution after the objective of the solution it was revised from. -/
def updateLines (p : Problem Float) (first updated : Solution Float) : Outcome (List String) := do
  let lines ← solutionLines p updated false
  return ("Original objective: " ++ amount (p.objectiveValue first.objective)) :: "" :: lines

end Report

end LinProg
