import LinProg.Event
import LinProg.Standing

/-!
# The simplex method

A run takes one pivot after another until the tableau is optimal or is found to have no optimum. A
negative right-hand side is repaired first. Otherwise the column of least reduced cost enters, until
too many pivots in a row have been degenerate; from then on, as long as pivots stay degenerate, the
rule that excludes cycles is used. The number of pivots of a run is limited.
-/

namespace LinProg

/-- The limits of a run. -/
structure Solver where
  /-- The largest number of pivots. -/
  maxIterations : Nat := 10000
  /-- The number of degenerate pivots in a row after which the rule that excludes cycles is used. -/
  degenerateStreakLimit : Nat := 8
deriving Repr, DecidableEq

/-- A run in progress. -/
structure Run (α : Type) where
  /-- The tableau that has been reached. -/
  tableau : Tableau α
  /-- The number of degenerate pivots just before. -/
  streak : Nat
  /-- The pivots that led there, the latest first. -/
  trail : List (Step α)

/-- Where a run has ended. -/
structure Halt (α : Type) where
  /-- The run at its end. -/
  run : Run α
  /-- Its status and last reduced costs, or the failure that ended it. -/
  outcome : Outcome (Status × ReducedCosts α)

/-- What a run does next. -/
inductive Move (α : Type) where
  /-- It takes a pivot. -/
  | pivot (p : Pivot α)
  /-- It ends. -/
  | halt (status : Status)

namespace Run

variable {α : Type}

/-- A run that has taken no pivot yet. -/
def start (t : Tableau α) : Run α := ⟨t, 0, []⟩

variable [Scalar α]

/-- The run after a pivot: a degenerate pivot makes the streak longer, any other ends it. -/
def advance (r : Run α) (p : Pivot α) : Outcome (Run α) := do
  let step ← p.step r.tableau
  return {
    tableau := ← p.apply r.tableau
    streak := if p.isDegenerate then r.streak + 1 else 0
    trail := step :: r.trail }

end Run

namespace Solver

variable {α : Type} [Scalar α]

/-- The selection for a tableau that is not optimal. -/
def select (s : Solver) (r : Run α) (costs : ReducedCosts α) (standing : Standing) :
    Outcome (Selection α) :=
  match standing.lowestRow? with
  | some row => Selection.repair r.tableau costs.reduced row
  | none =>
    if s.degenerateStreakLimit ≤ r.streak then do
      Selection.bland r.tableau costs.reduced (← r.tableau.basicColumns)
    else
      Selection.dantzig r.tableau costs.reduced

/-- What a run with the given reduced costs does next. -/
def decideMove (s : Solver) (r : Run α) (costs : ReducedCosts α) : Outcome (Move α) := do
  let standing := Standing.classify r.tableau.rhs costs.reduced
  if standing.isOptimal then return .halt .optimal
  match ← s.select r costs standing with
  | .pivot p => return .pivot p
  | .unbounded column =>
    return .halt (.unbounded column (← Outcome.inRange r.tableau.names[column]?))
  | .infeasible row =>
    return .halt (.infeasible row (← Outcome.inRange r.tableau.basis[row]?))

/-- The next move of a run, with the reduced costs it is based on. -/
def next (s : Solver) (r : Run α) : Outcome (Move α × ReducedCosts α) := do
  let costs ← ReducedCosts.compute r.tableau
  return (← s.decideMove r costs, costs)

/-- Carries on a run that may take the given number of further pivots. -/
def walk (s : Solver) : Nat → Run α → Halt α
  | remaining, r =>
    match s.next r with
    | .error failure => ⟨r, .error failure⟩
    | .ok (.halt status, costs) => ⟨r, .ok (status, costs)⟩
    | .ok (.pivot p, _) =>
      match remaining with
      | 0 => ⟨r, Outcome.refuse (.iterationLimit s.maxIterations)⟩
      | remaining + 1 =>
        match r.advance p with
        | .error failure => ⟨r, .error failure⟩
        | .ok advanced => s.walk remaining advanced

/-- The solution in which a run has ended. Alternates, degeneracy and prices are given for an
optimal tableau only. -/
def conclude (h : Halt α) (initialRows : Rows α) : Outcome (Solution α) := do
  let (status, reducedCosts) ← h.outcome
  let tableau := h.run.tableau
  let steps := h.run.trail.reverse
  if status = .optimal then
    return { status, tableau, reducedCosts, steps, initialRows
             alternates := ← Solution.alternatesOf tableau reducedCosts
             degenerate := Solution.degenerateBasis tableau
             analysis := ← Analysis.compute tableau reducedCosts }
  else
    return { status, tableau, reducedCosts, steps, initialRows
             alternates := [], degenerate := [], analysis := Analysis.empty }

/-- The events after the last pivot of a run. -/
def closingEvents (s : Solution α) : List (Event α) :=
  if s.isOptimal then
    .optimal s.pivots s.objective ::
      (if s.alternates.isEmpty then [] else [.alternates s.alternates.length])
  else
    [.halted s.pivots s.status]

/-- The checks before the first pivot. -/
def ready (t : Tableau α) : Outcome Unit := do
  t.validate
  let _ ← t.basicColumns

/-- Runs a tableau whose coefficients before any pivot were the given ones. The tableau is checked
before the first pivot. -/
def run (s : Solver) (t : Tableau α) (initialRows : Rows α) : Recorded α (Solution α) :=
  match ready t with
  | .error failure => .quiet (.error failure)
  | .ok () =>
    let halt := s.walk s.maxIterations (.start t)
    let pivots := halt.run.trail.reverse.map Event.pivoted
    match conclude halt initialRows with
    | .error failure => ⟨pivots, .error failure⟩
    | .ok solution => ⟨pivots ++ closingEvents solution, .ok solution⟩

/-- Solves a tableau. -/
def solve (s : Solver) (t : Tableau α) : Recorded α (Solution α) := s.run t t.rows

end Solver

end LinProg
