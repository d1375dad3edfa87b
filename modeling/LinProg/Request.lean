import LinProg.Rows

/-!
# Requests

The changes that can be made to a program after it has been solved. A request is stated for the
columns of the tableau, slack columns included.
-/

namespace LinProg

/-- A change of a linear program. -/
inductive Request (α : Type) where
  /-- New costs of all columns. -/
  | objectiveChange (costs : List α)
  /-- New right-hand sides of all rows. -/
  | rhsChange (rhs : List α)
  /-- Further constraints with their right-hand sides. Each row covers all columns and the slack
  columns that the new rows bring; the slack columns cost nothing unless costs are given. -/
  | newConstraints (rows : Rows α) (rhs : List α) (costs : Option (List α))
  /-- Further structural variables: their columns row by row, their costs and their names. -/
  | newVariables (columns : Rows α) (costs : List α) (names : List String)
  /-- New coefficients of all columns. -/
  | coefficientChange (rows : Rows α)
deriving Repr, DecidableEq

/-- The request with all costs replaced. -/
def Request.mapCosts {α : Type} (f : α → α) : Request α → Request α
  | .objectiveChange costs => .objectiveChange (costs.map f)
  | .newConstraints rows rhs costs => .newConstraints rows rhs (costs.map (·.map f))
  | .newVariables columns costs names => .newVariables columns (costs.map f) names
  | other => other

end LinProg
