import LinProg.Simplex

/-!
# Snapshots of optimal tableaux

A snapshot keeps what is needed to revise an optimal tableau without starting again: the tableau,
the coefficients before any pivot, whose slack columns form the identity, and the inverse of the
basis, which is read off the slack columns of the tableau.
-/

namespace LinProg

/-- A tableau that can be revised. -/
structure Snapshot (α : Type) where
  /-- The tableau. -/
  tableau : Tableau α
  /-- The inverse of the basis. -/
  basisInverse : Rows α
  /-- The coefficients before any pivot. -/
  initialRows : Rows α
deriving Repr, DecidableEq

/-- A tableau with the coefficients it had before any pivot, ready to be run. -/
structure Revision (α : Type) where
  /-- The tableau. -/
  tableau : Tableau α
  /-- The coefficients before any pivot. -/
  initialRows : Rows α
deriving Repr, DecidableEq

variable {α : Type} [Scalar α]

namespace Snapshot

/-- The slack columns of the initial coefficients are unit columns, in order. -/
def checkSlackColumns (t : Tableau α) (initialRows : Rows α) : Outcome Unit :=
  t.names.zipIdx.forM fun (name, j) => do
    if t.structural ≤ j then
      let entries ← initialRows.column j
      if !Rows.isUnit (j - t.structural) entries then
        Outcome.refuse (.slackColumnChanged name j)

/-- The snapshot of a tableau. -/
def capture (t : Tableau α) (initialRows : Rows α) : Outcome (Snapshot α) := do
  t.validate
  Dimension.initialRows.check t.height initialRows.length
  initialRows.checkWidths .initialColumns t.width
  checkSlackColumns t initialRows
  return { tableau := t, basisInverse := ← t.rows.basisInverse, initialRows }

end Snapshot

/-- The snapshot of an optimal solution. -/
def Solution.snapshot (s : Solution α) : Outcome (Snapshot α) :=
  if s.isOptimal then Snapshot.capture s.tableau s.initialRows else .refuse .notOptimal

end LinProg
