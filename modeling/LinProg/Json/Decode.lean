import LinProg.Json.Reader
import LinProg.Problem
import LinProg.Revision

/-!
# Programs from JSON

The documents in which problems, requests, tableaux, snapshots and revisions are given. Every type
has named fields; an array with the fields in order is read as well. All fields are required, apart
from the whole-value requirements of a problem and the costs of new constraints.
-/

namespace LinProg

namespace Json

/-- A list of numbers. -/
def toFloats? : Json → Option (List Float) := toList? toFloat?

/-- A list of names. -/
def toTexts? : Json → Option (List String) := toList? toText?

/-- A matrix. -/
def toRows? : Json → Option (Rows Float) := toList? toFloats?

end Json

/-- A relation is named by two letters; an object with that name for its only member, and null for
its value, is read as well. -/
def Relation.ofJson? : Json → Option Relation
  | .string name | .record [(name, .null)] =>
    match name with
    | "le" => some .atMost
    | "ge" => some .atLeast
    | "eq" => some .equal
    | _ => none
  | _ => none

/-- An objective. -/
def Objective.ofJson? (document : Json) : Option (Objective Float) := do
  match ← document.fields? ["coefficients", "minimize"] with
  | [some coefficients, some minimize] =>
    return { coefficients := ← coefficients.toFloats?, minimize := ← minimize.toBool? }
  | _ => none

/-- A constraint. -/
def Constraint.ofJson? (document : Json) : Option (Constraint Float) := do
  match ← document.fields? ["name", "coefficients", "op", "rhs"] with
  | [some name, some coefficients, some relation, some rhs] =>
    return { name := ← name.toText?, coefficients := ← coefficients.toFloats?
             relation := ← Relation.ofJson? relation, rhs := ← rhs.toFloat? }
  | _ => none

/-- A problem. Requirements that are not given are none. -/
def Problem.ofJson? (document : Json) : Option (Problem Float) := do
  match ← document.fields? ["variables", "objective", "constraints", "integer"] with
  | [some names, some objective, some constraints, integer] =>
    return { names := ← names.toTexts?, objective := ← Objective.ofJson? objective
             constraints := ← constraints.toList? Constraint.ofJson?
             integer := ← (integer.getD (.list [])).toList? Json.toBool? }
  | _ => none

/-- A tableau. -/
def Tableau.ofJson? (document : Json) : Option (Tableau Float) := do
  match ← document.fields? ["a", "b", "c", "x", "basis"] with
  | [some rows, some rhs, some costs, some names, some basis] =>
    return { rows := ← rows.toRows?, rhs := ← rhs.toFloats?, costs := ← costs.toFloats?
             names := ← names.toTexts?, basis := ← basis.toTexts? }
  | _ => none

/-- A snapshot. -/
def Snapshot.ofJson? (document : Json) : Option (Snapshot Float) := do
  match ← document.fields? ["tableau", "basis_inverse", "initial_a"] with
  | [some tableau, some basisInverse, some initialRows] =>
    return { tableau := ← Tableau.ofJson? tableau, basisInverse := ← basisInverse.toRows?
             initialRows := ← initialRows.toRows? }
  | _ => none

/-- A revision. -/
def Revision.ofJson? (document : Json) : Option (Revision Float) := do
  match ← document.fields? ["tableau", "initial_a"] with
  | [some tableau, some initialRows] =>
    return { tableau := ← Tableau.ofJson? tableau, initialRows := ← initialRows.toRows? }
  | _ => none

namespace Request

/-- The fields of a request of the given kind. -/
def ofFields? (kind : String) (document : Json) : Option (Request Float) :=
  match kind with
  | "objective_change" => do
    match ← document.fields? ["c"] with
    | [some costs] => return .objectiveChange (← costs.toFloats?)
    | _ => none
  | "rhs_change" => do
    match ← document.fields? ["b"] with
    | [some rhs] => return .rhsChange (← rhs.toFloats?)
    | _ => none
  | "new_constraints" => do
    match ← document.fields? ["rows", "rhs", "costs"] with
    | [some rows, some rhs, costs] =>
      let costs ← match costs with
        | none | some .null => some none
        | some costs => some <$> costs.toFloats?
      return .newConstraints (← rows.toRows?) (← rhs.toFloats?) costs
    | _ => none
  | "new_variables" => do
    match ← document.fields? ["columns", "costs", "names"] with
    | [some columns, some costs, some names] =>
      return .newVariables (← columns.toRows?) (← costs.toFloats?) (← names.toTexts?)
    | _ => none
  | "coefficient_change" => do
    match ← document.fields? ["a"] with
    | [some rows] => return .coefficientChange (← rows.toRows?)
    | _ => none
  | _ => none

/-- The nesting that a request may have. -/
def maxDepth : Nat := 127

/-- A request. Its kind may come anywhere among its fields, or first in an array; all of it has to
be sound, also the fields that are passed over. -/
def ofJson? (document : Json) : Option (Request Float) :=
  if document.isSound maxDepth then
    match document with
    | .list (.string kind :: rest) => ofFields? kind (.list rest)
    | .record members =>
      match document.fields? ["kind"] with
      | some [some (.string kind)] =>
        ofFields? kind (.record (members.filter fun member => member.1 != "kind"))
      | _ => none
    | _ => none
  else none

end Request

/-- The value that a text writes, by the given readings of its numerals and of its document. -/
def Json.readAs? {β : Type} (magnitude : Numeral → Float) (ofJson? : Json → Option β)
    (text : String) : Option β :=
  (Json.read? magnitude text).bind ofJson?

end LinProg
