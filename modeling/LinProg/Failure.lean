/-!
# Failures

What can keep an operation from giving its result. A `Refusal` is a fault of the data or a limit of
the search, named by its cause; its wording is in `Refusal.message`. A position outside a list is a
failure of another kind, `Failure.outOfRange`: it has no wording, and well-formed data never meets
it.
-/

namespace LinProg

/-- The lengths that are checked against each other. -/
inductive Dimension where
  | matrixVectorProduct
  | matrixProduct
  | matrixProductColumns
  | basisInverseColumns
  | basisLength
  | matrixColumns
  | matrixRows
  | rhsRows
  | objectiveLength
  | slackColumns
  | initialRows
  | initialColumns
  | newRhsRows
  | newSlackCosts
  | newRowColumns
  | newColumnRows
  | newVariableCosts
  | newColumns
  | integerRequirements
  | objectiveCoefficients
  | constraintCoefficients
deriving Repr, DecidableEq

/-- How a length is called in a message. -/
def Dimension.text : Dimension → String
  | .matrixVectorProduct => "matrix-vector product"
  | .matrixProduct => "matrix product"
  | .matrixProductColumns => "matrix product columns"
  | .basisInverseColumns => "basis inverse columns"
  | .basisLength => "basis length"
  | .matrixColumns => "columns of A"
  | .matrixRows => "rows of A"
  | .rhsRows => "rows of b"
  | .objectiveLength => "objective length"
  | .slackColumns => "slack columns"
  | .initialRows => "rows of initial A"
  | .initialColumns => "columns of initial A"
  | .newRhsRows => "rows of new b"
  | .newSlackCosts => "new slack costs"
  | .newRowColumns => "columns of new row"
  | .newColumnRows => "rows of new columns"
  | .newVariableCosts => "new variable costs"
  | .newColumns => "new columns"
  | .integerRequirements => "integer requirements"
  | .objectiveCoefficients => "objective coefficients"
  | .constraintCoefficients => "constraint coefficients"

/-- The causes for which an operation is refused. -/
inductive Refusal where
  /-- A length differs from the length it has to agree with. -/
  | dimensionMismatch (what : Dimension) (expected found : Nat)
  /-- A basic variable is not among the variables. -/
  | inconsistentBasis (name : String)
  /-- The coefficients of a basic variable may not be changed. -/
  | basisCoefficientChanged (name : String) (column : Nat)
  /-- A new constraint does not bring a slack column of its own. -/
  | nonUnitSlack (row : Nat)
  /-- A slack column of the initial matrix is not a unit column. -/
  | slackColumnChanged (name : String) (column : Nat)
  /-- A variable name occurs twice. -/
  | duplicateVariable (name : String)
  /-- Only an optimal solution can be revised. -/
  | notOptimal
  /-- A relaxation has no bound in a variable. -/
  | unbounded (name : String)
  /-- No point with the required whole values exists. -/
  | noIntegerSolution
  /-- A limit on pivots or search nodes is reached. -/
  | iterationLimit (limit : Nat)
deriving Repr, DecidableEq

/-- The text that tells a refusal to a user. -/
def Refusal.message : Refusal → String
  | .dimensionMismatch what expected found =>
    "Dimension mismatch in " ++ what.text ++ ": expected " ++ toString expected ++ ", found "
      ++ toString found
  | .inconsistentBasis name =>
    "Basic variable " ++ name ++ " does not appear in the variable list"
  | .basisCoefficientChanged name column =>
    "Coefficients of basic variable " ++ name ++ " (column " ++ toString column
      ++ ") changed; solve the problem again from scratch"
  | .nonUnitSlack row =>
    "New constraint " ++ toString row ++ " does not carry a unit slack column"
  | .slackColumnChanged name column =>
    "Slack column " ++ name ++ " (column " ++ toString column
      ++ ") must stay a unit column of the raw constraint matrix"
  | .duplicateVariable name => "Variable " ++ name ++ " already exists"
  | .notOptimal => "Solution is not optimal; no snapshot is available"
  | .unbounded name => "Relaxation is unbounded in " ++ name
  | .noIntegerSolution => "No integer-feasible solution exists"
  | .iterationLimit limit => "Iteration limit of " ++ toString limit ++ " reached"

/-- What an operation ends with when it gives no result. -/
inductive Failure where
  /-- The operation is refused. -/
  | refused (cause : Refusal)
  /-- A position lies outside a list. -/
  | outOfRange
deriving Repr, DecidableEq

/-- The result of an operation that may fail. -/
abbrev Outcome (β : Type) := Except Failure β

namespace Outcome

/-- The refusal as an outcome. -/
def refuse {β : Type} (cause : Refusal) : Outcome β := .error (.refused cause)

/-- The element found at a position, if the position is inside the list. -/
def inRange {β : Type} : Option β → Outcome β
  | some value => .ok value
  | none => .error .outOfRange

/-- Fails unless the positions used next are inside their lists. -/
def within (inside : Bool) : Outcome Unit := if inside then .ok () else .error .outOfRange

end Outcome

/-- Refuses a length that differs from the expected one. -/
def Dimension.check (what : Dimension) (expected found : Nat) : Outcome Unit :=
  if expected = found then .ok () else .refuse (.dimensionMismatch what expected found)

end LinProg
