import LinProg.Arithmetic
import LinProg.Failure

/-!
# Matrices as lists of rows

A matrix is the list of its rows. Nothing forces the rows to have one length, so the operations that
pair rows with columns check the lengths they rely on.
-/

namespace LinProg

/-- A matrix, row by row. -/
abbrev Rows (α : Type) := List (List α)

namespace Rows

/-- The length of the first row, zero if there is none. -/
def width {β : Type} (m : Rows β) : Nat := (m.head?.map List.length).getD 0

/-- The entries of one column, from the first row to the last. -/
def column {β : Type} (m : Rows β) (j : Nat) : Outcome (List β) :=
  Outcome.inRange (m.mapM (·[j]?))

/-- The columns of a matrix as rows, as many as the first row has entries. -/
def transpose {β : Type} (m : Rows β) : Outcome (Rows β) := (List.range m.width).mapM m.column

/-- Refuses a matrix with a row of another length than the given one. -/
def checkWidths {β : Type} (m : Rows β) (what : Dimension) (expected : Nat) : Outcome Unit :=
  m.forM fun row => what.check expected row.length

section

variable {α : Type} [Arithmetic α]

/-- The sum of the products of the entries, from the left. The sum begins with the negated zero,
which leaves every first summand as it is. -/
def dot (row vector : List α) : α := (List.zipWith (· * ·) row vector).foldl (· + ·) (-0)

/-- The product of a matrix and a vector. -/
def apply (m : Rows α) (vector : List α) : Outcome (List α) :=
  m.mapM fun row => do
    Dimension.matrixVectorProduct.check row.length vector.length
    return dot row vector

/-- A row vector times a matrix of the given width: the rows of the matrix are added up from zero,
each multiplied by the entry that belongs to it. -/
def combine (width : Nat) (row : List α) (m : Rows α) : List α :=
  (row.zip m).foldl (fun sum (entry, other) => List.zipWith (fun s o => s + entry * o) sum other)
    (List.replicate width 0)

/-- The product of two matrices. -/
def mul (left right : Rows α) : Outcome (Rows α) := do
  right.checkWidths .matrixProductColumns right.width
  left.mapM fun row => do
    Dimension.matrixProduct.check row.length right.length
    return combine right.width row right

/-- The last columns of a matrix, as many as it has rows. In a tableau that began with the identity
there, they hold the inverse of the basis. -/
def basisInverse (m : Rows α) : Outcome (Rows α) :=
  if m.width < m.length then
    .refuse (.dimensionMismatch .basisInverseColumns m.length m.width)
  else
    m.mapM fun row => do
      Outcome.within (m.width ≤ row.length)
      return (row.drop (m.width - m.length)).take m.length

/-- A row from which a multiple of the pivot row is taken away. Entries without a partner stay. -/
def eliminate (row pivotRow : List α) (multiplier : α) : List α :=
  List.zipWith (fun entry pivot => entry - multiplier * pivot) row pivotRow
    ++ row.drop pivotRow.length

@[simp] theorem length_eliminate (row pivotRow : List α) (multiplier : α) :
    (eliminate row pivotRow multiplier).length = row.length := by
  simp only [eliminate, List.length_append, List.length_zipWith, List.length_drop]
  omega

/-- The list is one at the given position and zero elsewhere. -/
def isUnit (index : Nat) (entries : List α) : Bool :=
  entries.zipIdx.all fun (entry, i) => entry == if i = index then 1 else 0

/-- The list that is one at the given position and zero elsewhere. -/
def unit (length index : Nat) : List α :=
  (List.range length).map fun i => if i = index then 1 else 0

@[simp] theorem length_unit (length index : Nat) :
    (unit (α := α) length index).length = length := by
  simp [unit]

end

end Rows

end LinProg
