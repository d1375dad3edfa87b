import LinProg.Least
import LinProg.Pivot

/-!
# Selecting a pivot

Each rule compares ratios and gives a pivot, or finds that the program is unbounded in a column or
cannot be made feasible in a row. A row or column that takes no part in a comparison has no ratio.
-/

namespace LinProg

/-- What a pivot rule finds. -/
inductive Selection (α : Type) where
  /-- A pivot to carry out. -/
  | pivot (p : Pivot α)
  /-- The variable of the column can grow without limit. -/
  | unbounded (column : Nat)
  /-- The right-hand side of the row cannot be made non-negative. -/
  | infeasible (row : Nat)
deriving Repr, DecidableEq

namespace Selection

variable {α : Type} [Scalar α]

open Scalar Arithmetic

/-- The ratio of a reduced cost to an entry of a row with negative right-hand side; only a negative
entry can repair the row. -/
def repairRatio (entry cost : α) : Option α :=
  if isNegative entry then some (abs (cost / entry)) else none

/-- The value up to which a row lets the entering variable grow; only a positive entry limits it. -/
def growthRatio (entry value : α) : Option α :=
  if isPositive entry then some (correct value / entry) else none

/-- A ratio that can be the limit of growth: a number that is not negative. -/
def limits (ratio : α) : Bool := isFinite ratio && !decide (ratio < 0)

/-- The column that repairs a negative right-hand side with the least ratio, the first of them. -/
def repair (t : Tableau α) (reduced : List α) (row : Nat) : Outcome (Selection α) := do
  let entries ← Outcome.inRange t.rows[row]?
  let ratios := List.zipWith repairRatio entries reduced
  match leastIndex? (ratios.map (·.filter isFinite)) with
  | none => return .infeasible row
  | some column =>
    let element ← Outcome.inRange entries[column]?
    let columnVector ← t.rows.column column
    return .pivot { rule := .infeasibility, row, column, element, columnVector, ratios }

/-- The pivot in a given column whose row limits its variable most. Among rows with the same limit
the first is taken, unless `precedes` prefers a later one. -/
def ratioTest (t : Tableau α) (column : Nat) (rule : PivotRule) (precedes : Nat → Nat → Bool) :
    Outcome (Selection α) := do
  let columnVector ← t.rows.column column
  let ratios := List.zipWith growthRatio columnVector t.rhs
  match leastIndexBy? precedes (ratios.map (·.filter limits)) with
  | none => return .unbounded column
  | some row =>
    let element ← Outcome.inRange columnVector[row]?
    return .pivot { rule, row, column, element, columnVector, ratios }

/-- Enters a given column. -/
def enter (t : Tableau α) (column : Nat) : Outcome (Selection α) :=
  ratioTest t column .dantzig fun _ _ => false

/-- Enters the column of least reduced cost, the first of them. -/
def dantzig (t : Tableau α) (reduced : List α) : Outcome (Selection α) :=
  match leastIndex? (reduced.map some) with
  | none => .ok (.unbounded 0)
  | some column => enter t column

/-- Enters the first column of negative reduced cost, and among rows with the same limit takes the
one whose basic variable has the first column. -/
def bland (t : Tableau α) (reduced : List α) (basicColumns : List Nat) : Outcome (Selection α) :=
  match reduced.findIdx? isNegative with
  | none => .ok (.unbounded 0)
  | some column => do
    Outcome.within (t.height ≤ basicColumns.length)
    ratioTest t column .bland fun row holder => basicColumns.getD row 0 < basicColumns.getD holder 0

end Selection

end LinProg
