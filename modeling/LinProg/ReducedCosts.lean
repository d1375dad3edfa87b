import LinProg.Tableau

/-!
# Reduced costs

The imputed cost of a column is the sum of its entries, each weighted with the cost of the basic
variable of its row; the same sum over the right-hand sides is the objective of the basic solution.
The reduced cost of a column is its imputed cost less its own cost: a basic solution with no
negative right-hand side and no negative reduced cost is optimal.
-/

namespace LinProg

/-- The costs that a basis imputes to the columns. -/
structure ReducedCosts (α : Type) where
  /-- Costs of the basic variables, row by row. -/
  basic : List α
  /-- Imputed costs of the columns, and last the objective. -/
  imputed : List α
  /-- Imputed costs less own costs, column by column. -/
  reduced : List α
deriving Repr, DecidableEq

namespace ReducedCosts

variable {α : Type} [Arithmetic α]

/-- The objective of the basic solution. -/
def objective (r : ReducedCosts α) : α := r.imputed.getLast?.getD 0

/-- The reduced costs of a tableau. -/
def compute (t : Tableau α) : Outcome (ReducedCosts α) := do
  Dimension.basisLength.check t.height t.basis.length
  t.rows.checkWidths .matrixColumns t.costs.length
  let columns ← t.basicColumns
  let basic ← columns.mapM fun j => Outcome.inRange t.costs[j]?
  Outcome.within (t.height ≤ t.rhs.length)
  let extended := List.zipWith (fun row value => row ++ [value]) t.rows t.rhs
  let imputed := Rows.combine (t.costs.length + 1) basic extended
  return { basic, imputed, reduced := List.zipWith (· - ·) imputed t.costs }

end ReducedCosts

end LinProg
