import LinProg.Event
import LinProg.Text.Quoted

/-!
# Messages of events

The text in which each event is told. The text of a number is chosen by the caller.
-/

namespace LinProg

/-- The text of a status in a message. -/
def Status.text : Status → String
  | .optimal => "Optimal"
  | .unbounded column name =>
    "Unbounded \x7b column: " ++ toString column ++ ", variable: " ++ Text.quoted name ++ " \x7d"
  | .infeasible row name =>
    "Infeasible \x7b row: " ++ toString row ++ ", variable: " ++ Text.quoted name ++ " \x7d"

/-- The text of an event. -/
def Event.message {α : Type} (number : α → String) : Event α → String
  | .pivoted s =>
    "pivot " ++ s.rule.name ++ ": " ++ s.entering ++ " enters, " ++ s.leaving ++ " leaves (row "
      ++ toString s.row ++ ", column " ++ toString s.column ++ ", element "
      ++ number s.element ++ ")"
  | .optimal pivots objective =>
    "optimal after " ++ toString pivots ++ " pivots, objective " ++ number objective
  | .halted pivots status => "halted after " ++ toString pivots ++ " pivots: " ++ status.text
  | .alternates count => toString count ++ " alternate optima"
  | .objectiveChanged => "objective coefficients changed"
  | .rhsChanged => "resource values changed"
  | .constraintsAdded count => "added " ++ toString count ++ " constraints"
  | .variablesAdded count => "added " ++ toString count ++ " variables"
  | .coefficientsChanged => "constraint coefficients changed"
  | .nodeInfeasible node depth =>
    "node " ++ toString node ++ " (depth " ++ toString depth ++ ") infeasible"
  | .nodePruned node objective => "node " ++ toString node ++ " pruned at " ++ number objective
  | .nodeIntegral node objective =>
    "node " ++ toString node ++ ": integer solution with objective " ++ number objective
  | .nodeBranched node depth name value =>
    "node " ++ toString node ++ " (depth " ++ toString depth ++ "): branching on " ++ name
      ++ " = " ++ number value

end LinProg
