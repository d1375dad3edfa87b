import LinProg.Pivot
import LinProg.ReducedCosts
import LinProg.Selection

/-!
# Solutions

What solving a tableau gives: a status with the tableau it was read from and the pivots that led
there, and for an optimal tableau the other optima next to it, its degenerate basic variables and
the analysis of prices.
-/

namespace LinProg

/-- How solving ended. -/
inductive Status where
  /-- The basic solution is optimal. -/
  | optimal
  /-- The variable of the column can grow without limit. -/
  | unbounded (column : Nat) (name : String)
  /-- The right-hand side of the row, whose basic variable is named, cannot be made non-negative. -/
  | infeasible (row : Nat) (name : String)
deriving Repr, DecidableEq

/-- A pivot as it is recorded. -/
structure Step (α : Type) where
  /-- The rule that chose the pivot. -/
  rule : PivotRule
  /-- The pivot row. -/
  row : Nat
  /-- The pivot column. -/
  column : Nat
  /-- The pivot element. -/
  element : α
  /-- The variable that becomes basic. -/
  entering : String
  /-- The variable that was basic in the row. -/
  leaving : String
  /-- The ratios that were compared. -/
  ratios : List (Option α)
deriving Repr, DecidableEq

/-- Another optimal tableau, one pivot away. -/
structure Alternate (α : Type) where
  /-- The variable that becomes basic. -/
  entering : String
  /-- The variable that is no longer basic. -/
  leaving : String
  /-- The tableau after the pivot. -/
  tableau : Tableau α
deriving Repr, DecidableEq

/-- The price of one more unit of a right-hand side. -/
structure ShadowPrice (α : Type) where
  /-- The row. -/
  row : Nat
  /-- The slack variable of the row. -/
  slack : String
  /-- The price. -/
  value : α
deriving Repr, DecidableEq

/-- The value and the reduced cost of a structural variable. -/
structure VariableCost (α : Type) where
  /-- The variable. -/
  name : String
  /-- Its value in the basic solution. -/
  value : α
  /-- Its reduced cost. -/
  reduced : α
  /-- Whether it is basic. -/
  isBasic : Bool
deriving Repr, DecidableEq

/-- Prices read off an optimal tableau. -/
structure Analysis (α : Type) where
  /-- The shadow price of each row. -/
  shadowPrices : List (ShadowPrice α)
  /-- The cost of each structural variable. -/
  variableCosts : List (VariableCost α)
  /-- The slack variables of the constraints that hold with equality. -/
  binding : List String
deriving Repr, DecidableEq

/-- The result of solving a tableau. -/
structure Solution (α : Type) where
  /-- How solving ended. -/
  status : Status
  /-- The last tableau. -/
  tableau : Tableau α
  /-- The reduced costs of the last tableau. -/
  reducedCosts : ReducedCosts α
  /-- The pivots, from the first to the last. -/
  steps : List (Step α)
  /-- Other optima next to the last tableau. -/
  alternates : List (Alternate α)
  /-- Basic variables with value zero. -/
  degenerate : List String
  /-- The analysis of prices. -/
  analysis : Analysis α
  /-- The coefficients before any pivot. -/
  initialRows : Rows α
deriving Repr, DecidableEq

/-- The record of a pivot of a tableau. -/
def Pivot.step {α : Type} (p : Pivot α) (t : Tableau α) : Outcome (Step α) := do
  let entering ← Outcome.inRange t.names[p.column]?
  let leaving ← Outcome.inRange t.basis[p.row]?
  return { rule := p.rule, row := p.row, column := p.column, element := p.element,
           entering, leaving, ratios := p.ratios }

namespace Analysis

variable {α : Type}

/-- No prices at all, for a tableau that is not optimal. -/
def empty : Analysis α := ⟨[], [], []⟩

variable [Scalar α]

/-- The prices of an optimal tableau. -/
def compute (t : Tableau α) (costs : ReducedCosts α) : Outcome (Analysis α) := do
  let n := t.structural
  let values ← t.values
  Outcome.within (t.width ≤ costs.reduced.length)
  let columns := values.zip costs.reduced
  return {
    shadowPrices := ((columns.drop n).zipIdx).map fun (((slack, _), value), row) =>
      { row, slack, value }
    variableCosts := (columns.take n).map fun ((name, value), reduced) =>
      { name, value, reduced, isBasic := t.isBasic name }
    binding := ((values.drop n).filter fun (_, value) => Scalar.isZero value).map (·.1) }

end Analysis

namespace Solution

variable {α : Type}

/-- The basic solution is optimal. -/
def isOptimal (s : Solution α) : Bool := s.status = .optimal

/-- The number of pivots taken. -/
def pivots (s : Solution α) : Nat := s.steps.length

variable [Scalar α]

/-- The objective of the last tableau. -/
def objective (s : Solution α) : α := s.reducedCosts.objective

/-- The basic variables of a tableau whose value is read as zero. -/
def degenerateBasis (t : Tableau α) : List String :=
  ((t.basis.zip t.rhs).filter fun (_, value) => Scalar.isZero value).map (·.1)

/-- The tableau one pivot away in which the given column is basic, if the column can enter at no
cost: it is not basic, its reduced cost is read as zero, and some row limits it. -/
def alternate? (t : Tableau α) (costs : ReducedCosts α) (column : Nat) :
    Outcome (Option (Alternate α)) := do
  let name ← Outcome.inRange t.names[column]?
  if t.isBasic name then return none
  let cost ← Outcome.inRange costs.reduced[column]?
  if !Scalar.isZero cost then return none
  let entries ← t.rows.column column
  if !entries.any Scalar.isPositive then return none
  match ← Selection.enter t column with
  | .pivot p =>
    let step ← p.step t
    return some { entering := step.entering, leaving := step.leaving, tableau := ← p.apply t }
  | _ => return none

/-- The other optima next to an optimal tableau, in the order of the entering columns. -/
def alternatesOf (t : Tableau α) (costs : ReducedCosts α) : Outcome (List (Alternate α)) := do
  return (← (List.range t.width).mapM (alternate? t costs)).filterMap id

end Solution

end LinProg
