import LinProg.Least

/-!
# The standing of a basic solution

Right-hand sides and reduced costs say where a tableau stands: a negative right-hand side makes the
basic solution infeasible, a negative reduced cost lets it be improved, and otherwise it is optimal.
-/

namespace LinProg

/-- Where a tableau stands. -/
inductive Standing where
  /-- The right-hand side of the row is the least of the negative ones. -/
  | infeasible (row : Nat)
  /-- No right-hand side is negative, but the reduced costs do not show optimality. -/
  | improvable
  /-- No right-hand side and no reduced cost is negative. -/
  | optimal
deriving Repr, DecidableEq

namespace Standing

/-- The row whose right-hand side is least among the negative ones. -/
def lowestRow? : Standing → Option Nat
  | .infeasible row => some row
  | _ => none

/-- No right-hand side is negative. -/
def isFeasible (s : Standing) : Bool := s.lowestRow?.isNone

/-- The basic solution is optimal. -/
def isOptimal (s : Standing) : Bool := s = .optimal

/-- The standing of a tableau with the given right-hand sides and reduced costs. -/
def classify {α : Type} [Scalar α] (rhs reduced : List α) : Standing :=
  match leastIndex? (rhs.map fun value => if Scalar.isNegative value then some value else none) with
  | some row => .infeasible row
  | none =>
    if reduced.all fun value => decide (0 ≤ Scalar.correct value) then .optimal else .improvable

end Standing

end LinProg
