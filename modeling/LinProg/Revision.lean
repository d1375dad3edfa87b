import LinProg.Request
import LinProg.Snapshot

/-!
# Revising a snapshot

A request is carried over to the tableau of a snapshot through the inverse of the basis: new
right-hand sides and columns are multiplied by it, and new rows are freed of the basic variables
with the rows of the tableau. The revised tableau keeps its basis and is run from there.
-/

namespace LinProg

namespace Snapshot

variable {α : Type} [Scalar α]

/-- The list with a block inserted before the given position. -/
def spliceAt {β : Type} (n : Nat) (block list : List β) : List β :=
  list.take n ++ block ++ list.drop n

/-- The costs are replaced. -/
def changeObjective (s : Snapshot α) (costs : List α) : Outcome (Revision α) := do
  Dimension.objectiveLength.check s.tableau.width costs.length
  return { tableau := { s.tableau with costs }, initialRows := s.initialRows }

/-- The right-hand sides are replaced. -/
def changeRhs (s : Snapshot α) (rhs : List α) : Outcome (Revision α) := do
  Dimension.rhsRows.check s.tableau.height rhs.length
  return { tableau := { s.tableau with rhs := ← s.basisInverse.apply rhs },
           initialRows := s.initialRows }

/-! ### New constraints -/

/-- Each new row has an entry for every column and for every new slack column, and among its slack
columns, old and new, it has a one for its own and zeros elsewhere. -/
def checkNewRows (s : Snapshot α) (rows : Rows α) : Outcome Unit :=
  rows.zipIdx.forM fun (row, i) => do
    Dimension.newRowColumns.check (s.tableau.width + rows.length) row.length
    let oldSlacks := (row.take s.tableau.width).drop s.tableau.structural
    if !(oldSlacks.all (· == 0) && Rows.isUnit i (row.drop s.tableau.width)) then
      Outcome.refuse (.nonUnitSlack i)

/-- A row and its right-hand side with one basic variable removed, by means of the tableau row in
which the variable is basic. -/
def fold (state : List α × α) (column : Nat) (tableauRow : List α) (tableauRhs : α) : List α × α :=
  let multiplier := state.1.getD column 0
  if multiplier == 0 then state
  else (Rows.eliminate state.1 tableauRow multiplier, state.2 - multiplier * tableauRhs)

@[simp] theorem length_fold (state : List α × α) (column : Nat) (tableauRow : List α)
    (tableauRhs : α) : (fold state column tableauRow tableauRhs).1.length = state.1.length := by
  unfold fold
  dsimp only
  split <;> simp

/-- A row and its right-hand side with all basic variables removed, from the first tableau row to
the last. -/
def foldAll (basicColumns : List Nat) (rows : Rows α) (rhs : List α) (row : List α) (value : α) :
    List α × α :=
  (basicColumns.zip (rows.zip rhs)).foldl
    (fun state (column, tableauRow, tableauRhs) => fold state column tableauRow tableauRhs)
    (row, value)

theorem length_foldAll (basicColumns : List Nat) (rows : Rows α) (rhs row : List α) (value : α) :
    (foldAll basicColumns rows rhs row value).1.length = row.length := by
  unfold foldAll
  generalize hs : (row, value) = state
  rw [show row = state.1 by rw [← hs]]
  generalize basicColumns.zip (rows.zip rhs) = entries
  clear hs
  induction entries generalizing state with
  | nil => rfl
  | cons entry entries ih => rw [List.foldl_cons, ih, length_fold]

/-- Constraints are added below the others. Each brings a slack variable with a fresh name, basic in
its row. -/
def addConstraints (s : Snapshot α) (rows : Rows α) (rhs : List α) (costs : Option (List α)) :
    Outcome (Revision α) := do
  let k := rows.length
  let t := s.tableau
  Dimension.newRhsRows.check k rhs.length
  if let some costs := costs then Dimension.newSlackCosts.check k costs.length
  s.checkNewRows rows
  let basicColumns ← t.basicColumns
  Outcome.within (decide (basicColumns.length ≤ t.height) &&
    decide (basicColumns.length ≤ t.rhs.length) &&
    rows.all fun row => basicColumns.all fun column => decide (column < row.length))
  let padding := List.replicate k (0 : α)
  let padded := t.rows.map (· ++ padding)
  let folded := List.zipWith (foldAll basicColumns padded t.rhs) rows rhs
  let names := freshNames t.names k
  return {
    tableau := {
      rows := padded ++ folded.map (·.1)
      rhs := t.rhs ++ folded.map (·.2)
      costs := t.costs ++ costs.getD padding
      names := t.names ++ names
      basis := t.basis ++ names }
    initialRows := s.initialRows.map (· ++ padding) ++ rows }

/-! ### New variables -/

/-- The first of some new names that is already a variable or occurs before among them. -/
def clashing? (names new : List String) : Option String :=
  (new.zipIdx.find? fun (name, i) => names.contains name || (new.take i).contains name).map (·.1)

/-- Structural variables are added after the others, before the slack variables. -/
def addVariables (s : Snapshot α) (columns : Rows α) (costs : List α) (names : List String) :
    Outcome (Revision α) := do
  let t := s.tableau
  Dimension.newColumnRows.check t.height columns.length
  Dimension.newVariableCosts.check names.length costs.length
  columns.checkWidths .newColumns names.length
  if let some name := clashing? t.names names then Outcome.refuse (.duplicateVariable name)
  let transformed ← s.basisInverse.mul columns
  Outcome.within
    (decide (transformed.length = t.height) && decide (s.initialRows.length = t.height))
  let n := t.structural
  return {
    tableau := {
      rows := List.zipWith (spliceAt n) transformed t.rows
      rhs := t.rhs
      costs := spliceAt n costs t.costs
      names := spliceAt n names t.names
      basis := t.basis }
    initialRows := List.zipWith (spliceAt n) columns s.initialRows }

/-! ### New coefficients -/

/-- The column of the revised tableau for new coefficients of one variable. Slack columns and the
columns of basic variables have to stay what they are; any other is multiplied by the inverse of the
basis. -/
def changedColumn (s : Snapshot α) (rows current : Rows α) (basicColumns : List Nat) (name : String)
    (j : Nat) : Outcome (List α) := do
  let raw ← rows.column j
  if s.tableau.structural ≤ j then
    if !Rows.isUnit (j - s.tableau.structural) raw then
      Outcome.refuse (.slackColumnChanged name j)
    Outcome.inRange current[j]?
  else if basicColumns.contains j then
    let initial ← s.initialRows.column j
    if !(raw.zip initial).all fun (new, old) => Arithmetic.identical new old then
      Outcome.refuse (.basisCoefficientChanged name j)
    Outcome.inRange current[j]?
  else
    let changed ← s.basisInverse.apply raw
    let _ ← Outcome.inRange current[j]?
    return changed

/-- The coefficients are replaced. -/
def changeCoefficients (s : Snapshot α) (rows : Rows α) : Outcome (Revision α) := do
  let t := s.tableau
  Dimension.matrixRows.check t.height rows.length
  rows.checkWidths .matrixColumns t.width
  let basicColumns ← t.basicColumns
  let current ← t.rows.transpose
  let columns ← t.names.zipIdx.mapM fun (name, j) =>
    s.changedColumn rows current basicColumns name j
  let changed ← if columns.isEmpty then pure t.rows else Rows.transpose columns
  return { tableau := { t with rows := changed }, initialRows := rows }

/-! ### Requests -/

/-- The revision of a snapshot by a request. -/
def apply (s : Snapshot α) : Request α → Outcome (Revision α)
  | .objectiveChange costs => s.changeObjective costs
  | .rhsChange rhs => s.changeRhs rhs
  | .newConstraints rows rhs costs => s.addConstraints rows rhs costs
  | .newVariables columns costs names => s.addVariables columns costs names
  | .coefficientChange rows => s.changeCoefficients rows

end Snapshot

/-- The event of a successful revision. -/
def Event.ofRequest {α : Type} : Request α → Event α
  | .objectiveChange _ => .objectiveChanged
  | .rhsChange _ => .rhsChanged
  | .newConstraints rows _ _ => .constraintsAdded rows.length
  | .newVariables _ _ names => .variablesAdded names.length
  | .coefficientChange _ => .coefficientsChanged

/-- The revision of a snapshot by a request, with its event. -/
def Snapshot.revise {α : Type} [Scalar α] (s : Snapshot α) (request : Request α) :
    Recorded α (Revision α) :=
  .andEvent (s.apply request) (.ofRequest request)

namespace Solver

variable {α : Type} [Scalar α]

/-- Runs a revised tableau from its basis. -/
def resolve (s : Solver) (r : Revision α) : Recorded α (Solution α) := s.run r.tableau r.initialRows

/-- Revises a snapshot and runs the revised tableau. -/
def update (s : Solver) (snapshot : Snapshot α) (request : Request α) :
    Recorded α (Solution α) :=
  (snapshot.revise request).andThen s.resolve

end Solver

end LinProg
