import LinProg.Tableau

/-!
# Pivots

A pivot exchanges one basic variable for another. The pivot row is divided by the pivot element, and
a multiple of it is taken from every other row so that the entering column becomes a unit column;
its ones and zeros are stored as such, without rounding.
-/

namespace LinProg

/-- The rules by which a pivot is chosen. -/
inductive PivotRule where
  /-- Repairs a negative right-hand side. -/
  | infeasibility
  /-- Enters the column of least reduced cost. -/
  | dantzig
  /-- Enters the first column of negative reduced cost. -/
  | bland
deriving Repr, DecidableEq

/-- How a rule is called. -/
def PivotRule.name : PivotRule → String
  | .infeasibility => "Infeasibility"
  | .dantzig => "Dantzig"
  | .bland => "Bland"

/-- A chosen exchange. -/
structure Pivot (α : Type) where
  /-- The rule that chose it. -/
  rule : PivotRule
  /-- The row of the leaving variable. -/
  row : Nat
  /-- The column of the entering variable. -/
  column : Nat
  /-- The entry in that row and column. -/
  element : α
  /-- The entries of the entering column. -/
  columnVector : List α
  /-- The ratios that were compared, where a row or column takes part in the comparison. -/
  ratios : List (Option α)
deriving Repr, DecidableEq

namespace Pivot

variable {α : Type} [Scalar α]

/-- The pivot leaves the objective as it is: it does not repair infeasibility, and the ratio of its
row is read as zero. No pivot that a run takes to improve the objective is without a ratio at its
row (`Solver.exists_ratio_of_next`), so the last case does not arise. -/
def isDegenerate (p : Pivot α) : Bool :=
  p.rule != .infeasibility &&
    match p.ratios[p.row]? with
    | some (some ratio) => Scalar.isZero ratio
    | _ => false

/-- The row and column of the pivot are inside the tableau, and its column has one entry for each
row. -/
def fits (p : Pivot α) (t : Tableau α) : Bool :=
  decide (p.row < t.height) && decide (p.column < t.width) &&
    decide (p.columnVector.length = t.height) && decide (t.rhs.length = t.height) &&
    decide (p.row < t.basis.length) && t.rows.all fun row => decide (p.column < row.length)

end Pivot

namespace Tableau

variable {α : Type} [Arithmetic α]

/-- A row from which the given multiple of the pivot row is taken, with a zero stored in the pivot
column. A row with multiple zero is left alone. -/
def clearRow (pivotRow : List α) (column : Nat) (multiplier : α) (row : List α) : List α :=
  if multiplier == 0 then row else (Rows.eliminate row pivotRow multiplier).set column 0

@[simp] theorem length_clearRow (pivotRow : List α) (column : Nat) (multiplier : α) (row : List α) :
    (clearRow pivotRow column multiplier row).length = row.length := by
  unfold clearRow
  split <;> simp

/-- A right-hand side from which the given multiple of the pivot row's is taken. -/
def clearRhs (pivotRhs multiplier value : α) : α :=
  if multiplier == 0 then value else value - multiplier * pivotRhs

end Tableau

namespace Pivot

variable {α : Type} [Scalar α]

/-- The tableau after the pivot. -/
def apply (p : Pivot α) (t : Tableau α) : Outcome (Tableau α) := do
  Outcome.within (p.fits t)
  let row ← Outcome.inRange t.rows[p.row]?
  let value ← Outcome.inRange t.rhs[p.row]?
  let entering ← Outcome.inRange t.names[p.column]?
  let pivotRow := (row.map (· / p.element)).set p.column 1
  let pivotRhs := value / p.element
  return { t with
    rows := (List.zipWith (Tableau.clearRow pivotRow p.column) p.columnVector t.rows).set
      p.row pivotRow
    rhs := (List.zipWith (Tableau.clearRhs pivotRhs) p.columnVector t.rhs).set p.row pivotRhs
    basis := t.basis.set p.row entering }

end Pivot

end LinProg
