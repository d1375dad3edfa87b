import LinProg.Request
import LinProg.Tableau

/-!
# Problems

A problem is stated by its user: an objective to be maximised or minimised over non-negative
variables, under constraints of three kinds. As a tableau it is maximised, and each constraint
becomes one row, or two rows for an equation, that bounds its left side from above with a slack
variable of its own.
-/

namespace LinProg

/-- How the two sides of a constraint are related. -/
inductive Relation where
  /-- The left side is at most the right side. -/
  | atMost
  /-- The left side is at least the right side. -/
  | atLeast
  /-- Both sides are equal. -/
  | equal
deriving Repr, DecidableEq

/-- The objective of a problem. -/
structure Objective (α : Type) where
  /-- The coefficients of the variables. -/
  coefficients : List α
  /-- Whether the least value is wanted. -/
  minimize : Bool
deriving Repr, DecidableEq

/-- A constraint of a problem. -/
structure Constraint (α : Type) where
  /-- Its name. -/
  name : String
  /-- The coefficients of the variables. -/
  coefficients : List α
  /-- How the left side is related to the right side. -/
  relation : Relation
  /-- The right side. -/
  rhs : α
deriving Repr, DecidableEq

/-- A linear program as its user states it. -/
structure Problem (α : Type) where
  /-- The names of the variables. -/
  names : List String
  /-- The objective. -/
  objective : Objective α
  /-- The constraints. -/
  constraints : List (Constraint α)
  /-- Which variables are required to be whole; those that are not listed are not. -/
  integer : List Bool
deriving Repr, DecidableEq

/-- The rows that bound the left side of a constraint from above, with their right-hand sides. -/
def Constraint.bounds {α : Type} [Neg α] (c : Constraint α) : List (List α × α) :=
  let upper := (c.coefficients, c.rhs)
  let lower := (c.coefficients.map (- ·), -c.rhs)
  match c.relation with
  | .atMost => [upper]
  | .atLeast => [lower]
  | .equal => [upper, lower]

namespace Problem

variable {α : Type}

/-- The number of variables. -/
def numVariables (p : Problem α) : Nat := p.names.length

/-- The number of constraints. -/
def numConstraints (p : Problem α) : Nat := p.constraints.length

/-- The objective is replaced. -/
def setObjective (p : Problem α) (coefficients : List α) (minimize : Bool) : Problem α :=
  { p with objective := { coefficients, minimize } }

/-- A constraint is added after the others. -/
def addConstraint (p : Problem α) (name : String) (coefficients : List α) (relation : Relation)
    (rhs : α) : Problem α :=
  { p with constraints := p.constraints ++ [{ name, coefficients, relation, rhs }] }

/-- The requirement of one variable is set; the list is extended up to it as needed. -/
def setInteger (p : Problem α) (index : Nat) (required : Bool) : Problem α :=
  let extended := p.integer ++ List.replicate (index + 1 - p.integer.length) false
  { p with integer := extended.set index required }

/-- Which variables are required to be whole, one entry for each variable. -/
def integerRequirements (p : Problem α) : List Bool :=
  (p.integer ++ List.replicate (p.numVariables - p.integer.length) false).take p.numVariables

/-- The name of the constraint from which each row of the tableau comes. -/
def rowLabels (p : Problem α) : List String :=
  p.constraints.flatMap fun c => List.replicate (if c.relation = .equal then 2 else 1) c.name

section

variable [Arithmetic α]

/-- A problem over the given variables with no constraint and objective zero. -/
def ofVariables (names : List String) : Problem α :=
  { names, constraints := [], integer := []
    objective := { coefficients := List.replicate names.length 0, minimize := false } }

/-- The objective of a tableau as the user reads it. -/
def objectiveValue (p : Problem α) (value : α) : α :=
  if p.objective.minimize then -value else value

/-- A request for the tableau from one whose costs are meant as the user reads them. -/
def tableauRequest (p : Problem α) (request : Request α) : Request α :=
  if p.objective.minimize then request.mapCosts (- ·) else request

/-- The rows of the tableau without slack columns, with their right-hand sides. -/
def boundRows (p : Problem α) : Outcome (List (List α × α)) := do
  let rows ← p.constraints.mapM fun c => do
    Dimension.constraintCoefficients.check p.numVariables c.coefficients.length
    return c.bounds
  return rows.flatten

/-- The tableau of a problem, with the slack variables basic. -/
def toTableau (p : Problem α) : Outcome (Tableau α) := do
  Dimension.objectiveCoefficients.check p.numVariables p.objective.coefficients.length
  let bounds ← p.boundRows
  let m := bounds.length
  let slacks := freshNames p.names m
  let sign : α := if p.objective.minimize then -1 else 1
  let t : Tableau α := {
    rows := bounds.zipIdx.map fun ((row, _), i) => row ++ Rows.unit m i
    rhs := bounds.map (·.2)
    costs := p.objective.coefficients.map (sign * ·) ++ List.replicate m 0
    names := p.names ++ slacks
    basis := slacks }
  t.validate
  return t

end

end Problem

end LinProg
