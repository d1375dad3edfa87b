import LinProg.Rows

/-!
# Tableaux

A tableau states a linear program together with a basis: maximise the costs over all non-negative
values of the named variables for which every row equals its right-hand side. The last columns, one
for each row, belong to the slack variables; the others are structural. Each row has one basic
variable, whose column is expected to be a unit column with its one in that row.
-/

namespace LinProg

/-- A linear program in rows with its basic variables. -/
structure Tableau (α : Type) where
  /-- Coefficients, row by row. -/
  rows : Rows α
  /-- Right-hand sides of the rows. -/
  rhs : List α
  /-- Costs of the columns, to be maximised. -/
  costs : List α
  /-- Names of the columns. -/
  names : List String
  /-- Names of the basic variables, row by row. -/
  basis : List String
deriving Repr, DecidableEq

/-- The first name of a list that occurs before in it. -/
def firstDuplicate (names : List String) : Option String :=
  (names.zipIdx.find? fun (name, i) => (names.take i).contains name).map (·.1)

/-- The name of the `k`-th slack variable. -/
def slackName (k : Nat) : String := "s" ++ toString k

/-- The first slack name that is not used. One more candidate than there are used names is enough
to find it. -/
def freshName (used : List String) : String :=
  (((List.range (used.length + 1)).map fun k => slackName (k + 1)).find?
    fun name => !used.contains name).getD ""

/-- The given number of slack names, each the first that is not used and not chosen before it. -/
def freshNames (used : List String) : Nat → List String
  | 0 => []
  | count + 1 =>
    let name := freshName used
    name :: freshNames (used ++ [name]) count

@[simp] theorem length_freshNames (used : List String) (count : Nat) :
    (freshNames used count).length = count := by
  induction count generalizing used with
  | zero => rfl
  | succ count ih => simp [freshNames, ih]

/-- The columns of the basic variables, row by row. -/
def locateBasis (names basis : List String) : Outcome (List Nat) :=
  basis.mapM fun name =>
    match names.idxOf? name with
    | some j => .ok j
    | none => .refuse (.inconsistentBasis name)

namespace Tableau

variable {α : Type}

/-- Number of rows. -/
def height (t : Tableau α) : Nat := t.rows.length

/-- Number of columns. -/
def width (t : Tableau α) : Nat := t.names.length

/-- Number of structural columns. -/
def structural (t : Tableau α) : Nat := t.width - t.height

/-- The column of a variable. -/
def indexOf? (t : Tableau α) (name : String) : Option Nat := t.names.idxOf? name

/-- The row in which a variable is basic. -/
def basicRow? (t : Tableau α) (name : String) : Option Nat := t.basis.idxOf? name

/-- Whether a variable is basic. -/
def isBasic (t : Tableau α) (name : String) : Bool := t.basis.contains name

/-- The columns of the basic variables of the tableau, row by row. -/
def basicColumns (t : Tableau α) : Outcome (List Nat) := locateBasis t.names t.basis

/-- The lengths of the parts agree, there are at least as many columns as rows, and no name occurs
twice. -/
def validate (t : Tableau α) : Outcome Unit := do
  Dimension.rhsRows.check t.height t.rhs.length
  Dimension.basisLength.check t.height t.basis.length
  t.rows.checkWidths .matrixColumns t.width
  Dimension.objectiveLength.check t.width t.costs.length
  if t.width < t.height then
    Outcome.refuse (.dimensionMismatch .slackColumns t.height t.width)
  match firstDuplicate t.names with
  | some name => .refuse (.duplicateVariable name)
  | none => .ok ()

variable [Zero α]

/-- The value of a variable in the basic solution: the right-hand side of its row, or zero if it is
not basic. -/
def basicValue (t : Tableau α) (name : String) : Outcome α :=
  match t.basicRow? name with
  | some row => Outcome.inRange t.rhs[row]?
  | none => .ok 0

/-- The basic solution, variable by variable in the order of the columns. -/
def values (t : Tableau α) : Outcome (List (String × α)) :=
  t.names.mapM fun name => return (name, ← t.basicValue name)

/-- The value of a variable, if there is such a variable. -/
def valueOf? (t : Tableau α) (name : String) : Outcome (Option α) :=
  match t.indexOf? name with
  | some _ => some <$> t.basicValue name
  | none => .ok none

end Tableau

end LinProg
