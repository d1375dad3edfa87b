import LinProg.Arithmetic.Double
import LinProg.BranchAndBound
import LinProg.Json.Printer

/-!
# Solutions as JSON

The documents in which solutions are given. A ratio that a row or column does not have is infinite.
-/

namespace LinProg

namespace Json

/-- A count or a position. -/
def ofNat (n : Nat) : Json := .integer n

/-- A list of numbers. -/
def ofFloats (values : List Float) : Json := .list (values.map .number)

/-- A list of names. -/
def ofTexts (texts : List String) : Json := .list (texts.map .string)

/-- A matrix. -/
def ofRows (rows : Rows Float) : Json := .list (rows.map ofFloats)

end Json

/-- A tableau. -/
def Tableau.toJson (t : Tableau Float) : Json :=
  .record [("a", .ofRows t.rows), ("b", .ofFloats t.rhs), ("c", .ofFloats t.costs),
    ("x", .ofTexts t.names), ("basis", .ofTexts t.basis)]

/-- A status. -/
def Status.toJson : Status → Json
  | .optimal => .string "Optimal"
  | .unbounded column name =>
    .record [("Unbounded", .record [("column", .ofNat column), ("variable", .string name)])]
  | .infeasible row name =>
    .record [("Infeasible", .record [("row", .ofNat row), ("variable", .string name)])]

/-- Reduced costs. -/
def ReducedCosts.toJson (r : ReducedCosts Float) : Json :=
  .record [("cb", .ofFloats r.basic), ("z", .ofFloats r.imputed), ("zc", .ofFloats r.reduced)]

/-- The number that stands for a ratio. -/
def ratioValue (ratio : Option Float) : Float := ratio.getD Double.infinity

/-- A pivot. -/
def Step.toJson (s : Step Float) : Json :=
  .record [("rule", .string s.rule.name), ("row", .ofNat s.row), ("column", .ofNat s.column),
    ("element", .number s.element), ("entering", .string s.entering),
    ("leaving", .string s.leaving), ("ratios", .ofFloats (s.ratios.map ratioValue))]

/-- Another optimum. -/
def Alternate.toJson (a : Alternate Float) : Json :=
  .record [("entering", .string a.entering), ("leaving", .string a.leaving),
    ("tableau", a.tableau.toJson)]

/-- A shadow price. -/
def ShadowPrice.toJson (p : ShadowPrice Float) : Json :=
  .record [("row", .ofNat p.row), ("slack", .string p.slack), ("value", .number p.value)]

/-- The cost of a variable. -/
def VariableCost.toJson (c : VariableCost Float) : Json :=
  .record [("variable", .string c.name), ("value", .number c.value),
    ("reduced_cost", .number c.reduced), ("is_basic", .bool c.isBasic)]

/-- An analysis of prices. -/
def Analysis.toJson (a : Analysis Float) : Json :=
  .record [("shadow_prices", .list (a.shadowPrices.map ShadowPrice.toJson)),
    ("reduced_costs", .list (a.variableCosts.map VariableCost.toJson)),
    ("binding_constraints", .ofTexts a.binding)]

/-- A solution. -/
def Solution.toJson (s : Solution Float) : Json :=
  .record [("status", s.status.toJson), ("tableau", s.tableau.toJson),
    ("reduced_costs", s.reducedCosts.toJson), ("steps", .list (s.steps.map Step.toJson)),
    ("alternates", .list (s.alternates.map Alternate.toJson)),
    ("degenerate", .ofTexts s.degenerate), ("analysis", s.analysis.toJson),
    ("initial_a", .ofRows s.initialRows)]

/-- A solution with whole values. -/
def IntegerSolution.toJson (s : IntegerSolution Float) : Json :=
  .record [("objective", .number s.objective),
    ("assignment", .record (s.assignment.map fun (name, value) => (name, .number value))),
    ("nodes", .ofNat s.nodes), ("tableau", s.tableau.toJson)]

end LinProg
