import LinProg.Solution

/-!
# Events

What a run tells about itself while it goes on. Events are data: an operation that reports them
gives back the list of its events, in order, beside its outcome, and a failed run keeps the events
before the failure. The text of an event leaves the form of its numbers to the reader.
-/

namespace LinProg

/-- Something that happened during a run. -/
inductive Event (α : Type) where
  /-- A pivot was taken. -/
  | pivoted (step : Step α)
  /-- A run ended at an optimal tableau after some pivots. -/
  | optimal (pivots : Nat) (objective : α)
  /-- A run ended without an optimal tableau after some pivots. -/
  | halted (pivots : Nat) (status : Status)
  /-- An optimal tableau has other optima next to it. -/
  | alternates (count : Nat)
  /-- A revision changed the costs. -/
  | objectiveChanged
  /-- A revision changed the right-hand sides. -/
  | rhsChanged
  /-- A revision added constraints. -/
  | constraintsAdded (count : Nat)
  /-- A revision added variables. -/
  | variablesAdded (count : Nat)
  /-- A revision changed coefficients. -/
  | coefficientsChanged
  /-- A search node has no feasible point. -/
  | nodeInfeasible (node depth : Nat)
  /-- A search node cannot beat the best solution. -/
  | nodePruned (node : Nat) (objective : α)
  /-- A search node has an optimum with the required whole values. -/
  | nodeIntegral (node : Nat) (objective : α)
  /-- A search node is split at the value of a variable. -/
  | nodeBranched (node depth : Nat) (name : String) (value : α)
deriving Repr, DecidableEq

namespace Event

variable {α : Type}

/-- The event ends a run or improves on the best solution, so that it is worth telling a user who
does not ask for details. -/
def isNotable : Event α → Bool
  | .optimal .. | .halted .. | .nodeIntegral .. => true
  | _ => false

end Event

/-- The outcome of an operation with the events before it. -/
structure Recorded (α β : Type) where
  /-- The events, from the first to the last. -/
  events : List (Event α)
  /-- The outcome. -/
  outcome : Outcome β

namespace Recorded

variable {α β γ : Type}

/-- An outcome reached without any event. -/
def quiet (outcome : Outcome β) : Recorded α β := ⟨[], outcome⟩

/-- An outcome that is followed by an event if it is a success. -/
def andEvent (outcome : Outcome β) (event : Event α) : Recorded α β :=
  match outcome with
  | .ok value => ⟨[event], .ok value⟩
  | .error failure => ⟨[], .error failure⟩

/-- Goes on with the result of an operation, if there is one. -/
def andThen (first : Recorded α β) (next : β → Recorded α γ) : Recorded α γ :=
  match first.outcome with
  | .ok value =>
    let second := next value
    ⟨first.events ++ second.events, second.outcome⟩
  | .error failure => ⟨first.events, .error failure⟩

end Recorded

end LinProg
