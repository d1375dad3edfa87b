import LinProg.Revision

/-!
# Branch and bound

Some structural variables are required to be whole. A node of the search is a relaxation without
that requirement. If its optimum has a required variable with a fractional value, the node is split
in two, with the variable bounded by the next whole number above or below; the nodes are revisions
of the parent's last tableau. Nodes that cannot beat the best solution found before are left out.
The search goes deep first, into the lower half first, and its number of nodes is limited.
-/

namespace LinProg

/-- The options of a search. -/
structure BranchAndBound (α : Type) where
  /-- The limits of each run. -/
  solver : Solver := {}
  /-- An objective that a solution has to exceed, if there is one. A search among all points with
  doubles as objectives has minus infinity here, so that an objective of minus infinity does not
  count. -/
  incumbent : Option α := none
  /-- The largest number of nodes. -/
  maxNodes : Nat := 100000
deriving Repr, DecidableEq

/-- The best point with the required whole values. -/
structure IntegerSolution (α : Type) where
  /-- Its objective. -/
  objective : α
  /-- The values of the structural variables, in the order of their names. -/
  assignment : List (String × α)
  /-- The number of nodes of the search. -/
  nodes : Nat
  /-- The tableau whose basic solution it is. -/
  tableau : Tableau α
deriving Repr, DecidableEq

/-- A relaxation that is still to be run. -/
structure Node (α : Type) where
  /-- The revised tableau of the relaxation. -/
  revision : Revision α
  /-- The number of splits above it. -/
  depth : Nat

/-- What is found at a node. -/
inductive Visit (α : Type) where
  /-- The relaxation has no point. -/
  | infeasible
  /-- The relaxation does not exceed the bound. -/
  | pruned
  /-- The optimum of the relaxation has the required whole values. -/
  | integral (objective : α) (assignment : List (String × α)) (tableau : Tableau α)
  /-- A variable is bounded from above and from below by the whole numbers next to its value. -/
  | split (lower upper : Revision α)

/-- A search in progress. -/
structure Search (α : Type) where
  /-- The nodes that are still to be visited, the next one first. -/
  stack : List (Node α)
  /-- The objective that a further solution has to exceed. -/
  bound : Option α
  /-- The best solution so far. -/
  best : Option (IntegerSolution α)
  /-- The number of nodes that have been visited. -/
  visited : Nat
  /-- The events so far, the latest first. -/
  events : List (Event α)

namespace BranchAndBound

variable {α : Type} [Scalar α]

/-- The objective is not read as more than the bound. -/
def isPruned (objective : α) : Option α → Bool
  | none => false
  | some bound => decide (Scalar.correct objective ≤ Scalar.correct bound)

/-- The column and the value of the first basic variable that is required to be whole and is not. -/
def fractional? (integer : List Bool) (t : Tableau α) : Outcome (Option (Nat × α)) := do
  let columns ← t.basicColumns
  return (columns.zip t.rhs).find? fun (column, value) =>
    integer[column]? == some true && !Scalar.isInteger value

/-- The corrected values of the structural variables, in the order of their names. -/
def assignment (n : Nat) (t : Tableau α) : Outcome (List (String × α)) := do
  let values ← t.values
  return ((values.take n).map fun (name, value) => (name, Scalar.correct value)).mergeSort
    fun first second => decide (first.1 ≤ second.1)

/-- The constraint that the variable of a column, with the given sign, is at most a bound. -/
def boundRequest (width column : Nat) (sign bound : α) : Request α :=
  .newConstraints [((List.replicate (width + 1) 0).set column sign).set width 1] [bound] none

/-- The revisions in which the variable of a column is at most its value rounded down, and at least
its value rounded up. -/
def split (solution : Solution α) (column : Nat) (value : α) :
    Recorded α (Revision α × Revision α) :=
  let width := solution.tableau.width
  (Recorded.quiet solution.snapshot).andThen fun snapshot =>
    (snapshot.revise (boundRequest width column (-1) (-Arithmetic.ceil value))).andThen fun upper =>
      (snapshot.revise (boundRequest width column 1 (Arithmetic.floor value))).andThen fun lower =>
        .quiet (.ok (lower, upper))

/-- What is found at a node whose relaxation is optimal. -/
def examine (integer : List Bool) (bound : Option α) (number depth : Nat) (solution : Solution α) :
    Recorded α (Visit α) :=
  let objective := solution.objective
  if isPruned objective bound then ⟨[.nodePruned number objective], .ok .pruned⟩
  else
    (Recorded.quiet (fractional? integer solution.tableau)).andThen fun
      | none => .andThen ⟨[.nodeIntegral number objective], .ok ()⟩ fun () =>
        .quiet do
          return .integral objective (← assignment integer.length solution.tableau) solution.tableau
      | some (column, value) =>
        (Recorded.quiet (Outcome.inRange solution.tableau.names[column]?)).andThen fun name =>
          .andThen ⟨[.nodeBranched number depth name value], .ok ()⟩ fun () =>
            (split solution column value).andThen fun (lower, upper) =>
              .quiet (.ok (.split lower upper))

/-- What is found at a node. -/
def visit (b : BranchAndBound α) (integer : List Bool) (bound : Option α) (number : Nat)
    (node : Node α) : Recorded α (Visit α) :=
  (b.solver.resolve node.revision).andThen fun solution =>
    match solution.status with
    | .optimal => examine integer bound number node.depth solution
    | .infeasible .. => ⟨[.nodeInfeasible number node.depth], .ok .infeasible⟩
    | .unbounded _ name => .quiet (.refuse (.unbounded name))

/-- The search after a node, whose siblings still to be visited are given. -/
def record (s : Search α) (node : Node α) (rest : List (Node α)) (events : List (Event α)) :
    Visit α → Search α
  | .integral objective assignment tableau =>
    { stack := rest, bound := some objective, visited := s.visited + 1
      best := some { objective, assignment, nodes := s.visited + 1, tableau }
      events := events.reverse ++ s.events }
  | .split lower upper =>
    { s with
      stack := ⟨lower, node.depth + 1⟩ :: ⟨upper, node.depth + 1⟩ :: rest
      visited := s.visited + 1, events := events.reverse ++ s.events }
  | .infeasible | .pruned =>
    { s with stack := rest, visited := s.visited + 1, events := events.reverse ++ s.events }

/-- Carries on a search that may visit the given number of further nodes. -/
def explore (b : BranchAndBound α) (integer : List Bool) :
    Nat → Search α → Recorded α (IntegerSolution α)
  | remaining, s =>
    match s.stack with
    | [] =>
      match s.best with
      | some best => ⟨s.events.reverse, .ok { best with nodes := s.visited }⟩
      | none => ⟨s.events.reverse, .refuse .noIntegerSolution⟩
    | node :: rest =>
      match remaining with
      | 0 => ⟨s.events.reverse, .refuse (.iterationLimit b.maxNodes)⟩
      | remaining + 1 =>
        let found := b.visit integer s.bound (s.visited + 1) node
        match found.outcome with
        | .error failure => ⟨(found.events.reverse ++ s.events).reverse, .error failure⟩
        | .ok visit => b.explore integer remaining (record s node rest found.events visit)

/-- The search from a tableau. -/
def start (b : BranchAndBound α) (t : Tableau α) : Search α :=
  { stack := [⟨⟨t, t.rows⟩, 0⟩], bound := b.incumbent, best := none, visited := 0, events := [] }

/-- The best solution in which the structural variables that are marked have whole values. -/
def solve (b : BranchAndBound α) (t : Tableau α) (integer : List Bool) :
    Recorded α (IntegerSolution α) :=
  (Recorded.quiet t.validate).andThen fun () =>
    (Recorded.quiet (Dimension.integerRequirements.check t.structural integer.length)).andThen
      fun () => b.explore integer b.maxNodes (b.start t)

end BranchAndBound

end LinProg
