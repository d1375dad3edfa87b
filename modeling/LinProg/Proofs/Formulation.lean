import LinProg.Proofs.Names
import LinProg.Proofs.Points
import LinProg.Proofs.Problem
import LinProg.Proofs.Reading

/-!
# A problem and its tableau say the same

Each constraint of a problem bounds its left side from above once, or twice for an equation, and
each bound becomes a row of the tableau with a slack variable of its own. The rows stand in the
order of the constraints, so the labels of the rows, which are counted out from the constraints
apart from the rows, name the constraints that they come from. A point satisfies the constraints
exactly if the slack variables can make up for what the bounds leave, in one way only, and the costs
are the objective with the sign that makes its best value the largest.
-/

namespace LinProg

namespace Problem

/-! ### The rows of the tableau -/

section

variable {α : Type}

theorem length_bounds [Neg α] (c : Constraint α) :
    c.bounds.length = if c.relation = .equal then 2 else 1 := by
  rw [Constraint.bounds]
  cases c.relation <;> rfl

/-- Every label is the name of the constraint whose bound has the same position. -/
theorem zip_rowLabels [Neg α] (p : Problem α) :
    p.rowLabels.zip (p.constraints.flatMap (·.bounds)) =
      p.constraints.flatMap fun c => c.bounds.map fun bound => (c.name, bound) := by
  rw [rowLabels]
  induction p.constraints with
  | nil => rfl
  | cons c constraints ih =>
    have hlen : (List.replicate (if c.relation = .equal then 2 else 1) c.name).length =
        c.bounds.length := by
      rw [List.length_replicate, length_bounds]
    rw [List.flatMap_cons, List.flatMap_cons, List.flatMap_cons, List.zip_append hlen, ih,
      ← length_bounds, ← List.map_const', List.map_prod_right_eq_zip]

theorem length_rowLabels [Neg α] (p : Problem α) :
    p.rowLabels.length = (p.constraints.flatMap (·.bounds)).length := by
  simp only [rowLabels, List.length_flatMap, List.length_replicate, length_bounds]

variable [Arithmetic α] {p : Problem α} {t : Tableau α} {bounds : List (List α × α)}

/-- The bounds are given if each constraint has a coefficient for each variable. -/
theorem boundRows_eq_ok : p.boundRows = .ok bounds ↔
    (∀ c ∈ p.constraints, c.coefficients.length = p.numVariables) ∧
      bounds = p.constraints.flatMap (·.bounds) := by
  rw [boundRows, Outcome.bind_eq_ok]
  have hmap : ∀ rows : List (List (List α × α)), (p.constraints.mapM fun c => do
        Dimension.constraintCoefficients.check p.numVariables c.coefficients.length
        return c.bounds) = Except.ok rows ↔
      (∀ c ∈ p.constraints, c.coefficients.length = p.numVariables) ∧
        rows = p.constraints.map (·.bounds) := by
    intro rows
    refine Outcome.mapM_eq_ok_map fun c row => ?_
    rw [Outcome.bind_unit_eq_ok, Dimension.check_eq_ok, Outcome.pure_eq, Except.ok.injEq,
      eq_comm (a := row), eq_comm (a := c.coefficients.length)]
  constructor
  · rintro ⟨rows, hrows, h⟩
    obtain ⟨hlen, rfl⟩ := (hmap rows).1 hrows
    cases h
    exact ⟨hlen, List.flatMap_def.symm⟩
  · rintro ⟨hlen, rfl⟩
    exact ⟨_, (hmap _).2 ⟨hlen, rfl⟩, by rw [List.flatMap_def]; rfl⟩

theorem length_of_mem_bounds {c : Constraint α} {bound : List α × α} (h : bound ∈ c.bounds) :
    bound.1.length = c.coefficients.length := by
  rw [Constraint.bounds] at h
  cases hrelation : c.relation <;> simp [hrelation] at h
  · rw [h]
  · rw [h, List.length_map]
  · rcases h with rfl | rfl
    · rfl
    · rw [List.length_map]

/-- The tableau is valid if the lengths fit and the names of the variables differ. -/
theorem isValid_slackTableau (hobjective : p.objective.coefficients.length = p.numVariables)
    (hbounds : ∀ bound ∈ bounds, bound.1.length = p.numVariables) :
    (p.slackTableau bounds).IsValid ↔ p.names.Nodup := by
  constructor
  · intro h
    exact (List.nodup_append.1 h.nodup_names).1
  · intro hnodup
    refine ⟨?_, ?_, ?_, ?_, ?_, nodup_append_freshNames hnodup _⟩
    · rw [height_slackTableau, slackTableau, List.length_map]
    · rw [height_slackTableau, slackTableau, length_freshNames]
    · intro row hrow
      obtain ⟨i, hi⟩ := List.mem_iff_getElem?.1 hrow
      rw [getElem?_rows_slackTableau, Option.map_eq_some_iff] at hi
      obtain ⟨bound, hbound, rfl⟩ := hi
      rw [List.length_append, Rows.length_unit, hbounds bound (List.mem_of_getElem? hbound),
        width_slackTableau]
    · rw [width_slackTableau, slackTableau, List.length_append, List.length_map, hobjective,
        List.length_replicate]
    · rw [height_slackTableau, width_slackTableau]
      exact Nat.le_add_left _ _

/-- A problem has a tableau exactly if its objective and each constraint have a coefficient for each
variable and the names of the variables differ. -/
theorem toTableau_eq_ok_iff : p.toTableau = .ok t ↔
    (p.objective.coefficients.length = p.numVariables ∧
      (∀ c ∈ p.constraints, c.coefficients.length = p.numVariables) ∧ p.names.Nodup) ∧
      t = p.slackTableau (p.constraints.flatMap (·.bounds)) := by
  rw [toTableau_eq_ok]
  have hvalid : p.objective.coefficients.length = p.numVariables →
      (∀ c ∈ p.constraints, c.coefficients.length = p.numVariables) →
      ((p.slackTableau (p.constraints.flatMap (·.bounds))).IsValid ↔ p.names.Nodup) := by
    intro hobjective hconstraints
    refine isValid_slackTableau hobjective fun bound hbound => ?_
    obtain ⟨c, hc, hbound⟩ := List.mem_flatMap.1 hbound
    rw [length_of_mem_bounds hbound, hconstraints c hc]
  constructor
  · rintro ⟨hobjective, bounds, hbounds, h, rfl⟩
    obtain ⟨hconstraints, rfl⟩ := boundRows_eq_ok.1 hbounds
    exact ⟨⟨hobjective, hconstraints, (hvalid hobjective hconstraints).1 h⟩, rfl⟩
  · rintro ⟨⟨hobjective, hconstraints, hnodup⟩, rfl⟩
    exact ⟨hobjective, _, boundRows_eq_ok.2 ⟨hconstraints, rfl⟩,
      (hvalid hobjective hconstraints).2 hnodup, rfl⟩

/-- How the rows and the columns of a tableau belong to a problem. -/
structure IsLaidOut (p : Problem α) (t : Tableau α) : Prop where
  isCanonical : t.IsCanonical
  structural_eq : t.structural = p.numVariables
  /-- Behind the variables of the problem stand the rows of the identity. -/
  drop_row : ∀ i row, t.rows[i]? = some row → row.drop p.numVariables = Rows.unit t.height i
  names_eq : t.names = p.names ++ t.basis
  nodup_basis : t.basis.Nodup
  basis_fresh : ∀ name ∈ t.basis, name ∉ p.names
  length_rowLabels : p.rowLabels.length = t.height
  /-- Each row bounds the left side of the constraint that its label names. -/
  zip_rowLabels : p.rowLabels.zip ((t.rows.map (·.take p.numVariables)).zip t.rhs) =
    p.constraints.flatMap fun c => c.bounds.map fun bound => (c.name, bound)

end

/-- The tableau of a problem is laid out by its constraints. -/
theorem isLaidOut_of_toTableau {α : Type} [Scalar α] [LawfulUnits α] {p : Problem α} {t : Tableau α}
    (h : p.toTableau = .ok t) : p.IsLaidOut t := by
  obtain ⟨-, bounds, hbounds, hvalid, rfl⟩ := toTableau_eq_ok.1 h
  obtain ⟨-, rfl⟩ := boundRows_eq_ok.1 hbounds
  have hlen := length_bound hvalid
  have hid := hasIdentity_slackTableau hvalid
  obtain ⟨-, hbasis, hfresh⟩ := List.nodup_append'.1 hvalid.nodup_names
  refine ⟨hvalid.isCanonical_of_slackBasis hid basis_slackTableau, structural_slackTableau, ?_, rfl,
    hbasis, fun name hname hold => hfresh hold hname, ?_, ?_⟩
  · intro i row hrow
    rw [getElem?_rows_slackTableau, Option.map_eq_some_iff] at hrow
    obtain ⟨bound, hbound, rfl⟩ := hrow
    rw [← hlen bound (List.mem_of_getElem? hbound), List.drop_left, height_slackTableau]
  · rw [length_rowLabels, height_slackTableau]
  · have hrows : (p.slackTableau (p.constraints.flatMap (·.bounds))).rows.map
        (·.take p.numVariables) = (p.constraints.flatMap (·.bounds)).map (·.1) := by
      refine List.ext_getElem? fun i => ?_
      rw [List.getElem?_map, List.getElem?_map, getElem?_rows_slackTableau]
      cases hbound : (p.constraints.flatMap (·.bounds))[i]? with
      | none => rfl
      | some bound =>
        rw [Option.map_some, Option.map_some, Option.map_some,
          ← hlen bound (List.mem_of_getElem? hbound), List.take_left]
    have hzip : ∀ l : List (List α × α), (l.map (·.1)).zip (l.map (·.2)) = l := by
      intro l
      rw [List.zip_map', List.map_id']
    rw [hrows, slackTableau, hzip, p.zip_rowLabels]

end Problem

/-! ### The problem in exact arithmetic -/

/-- The sum of the values of a point, each with its coefficient. -/
def linearAt (coefficients : List ℚ) (y : ℕ → ℚ) : ℚ :=
  ∑ j ∈ Finset.range coefficients.length, coefficients.getD j 0 * y j

theorem linearAt_map_mul (sign : ℚ) (coefficients : List ℚ) (y : ℕ → ℚ) :
    linearAt (coefficients.map (sign * ·)) y = sign * linearAt coefficients y := by
  rw [linearAt, linearAt, Finset.mul_sum, List.length_map]
  refine Finset.sum_congr rfl fun j hj => ?_
  have hj := Finset.mem_range.1 hj
  rw [List.getD_eq_getElem _ _ (by rwa [List.length_map]), List.getD_eq_getElem _ _ hj,
    List.getElem_map, mul_assoc]

theorem linearAt_map_neg (coefficients : List ℚ) (y : ℕ → ℚ) :
    linearAt (coefficients.map (- ·)) y = -linearAt coefficients y := by
  simpa only [neg_one_mul] using linearAt_map_mul (-1) coefficients y

/-- The values of a point for the variables, followed by values for the slack variables. -/
def withSlacks (n : ℕ) (y s : ℕ → ℚ) (j : ℕ) : ℚ := if j < n then y j else s (j - n)

/-- A row that ends in a row of the identity sums up the variables and its own slack variable. -/
theorem sum_append_unit {n m i : ℕ} {row : List ℚ} (hrow : row.length = n) (hi : i < m)
    (y s : ℕ → ℚ) :
    ∑ j ∈ Finset.range (n + m), (row ++ Rows.unit m i).getD j 0 * withSlacks n y s j =
      linearAt row y + s i := by
  rw [Finset.sum_range_add]
  congr 1
  · rw [linearAt, hrow]
    refine Finset.sum_congr rfl fun j hj => ?_
    have hj := Finset.mem_range.1 hj
    rw [List.getD_append _ _ _ _ (hrow.symm ▸ hj), withSlacks, if_pos hj]
  · rw [Finset.sum_eq_single_of_mem i (Finset.mem_range.2 hi)]
    · rw [List.getD_append_right _ _ _ _ (by omega), withSlacks, if_neg (by omega), hrow,
        Nat.add_sub_cancel_left, Rows.getD_unit hi, if_pos rfl, one_mul]
    · intro k hk hki
      rw [List.getD_append_right _ _ _ _ (by omega), hrow, Nat.add_sub_cancel_left,
        Rows.getD_unit (Finset.mem_range.1 hk), if_neg hki, zero_mul]

/-- A point satisfies a constraint. -/
def Constraint.Holds (c : Constraint ℚ) (y : ℕ → ℚ) : Prop :=
  match c.relation with
  | .atMost => linearAt c.coefficients y ≤ c.rhs
  | .atLeast => c.rhs ≤ linearAt c.coefficients y
  | .equal => linearAt c.coefficients y = c.rhs

/-- A constraint holds if its left side is within all of its bounds. -/
theorem Constraint.holds_iff {c : Constraint ℚ} {y : ℕ → ℚ} :
    c.Holds y ↔ ∀ bound ∈ c.bounds, linearAt bound.1 y ≤ bound.2 := by
  rw [Holds, bounds]
  cases c.relation with
  | atMost => simp
  | atLeast => simp [linearAt_map_neg]
  | equal =>
    have hboth := le_antisymm_iff (a := linearAt c.coefficients y) (b := c.rhs)
    simp [linearAt_map_neg, hboth]

namespace Problem

variable {p : Problem ℚ} {t : Tableau ℚ}

/-- No variable is negative, and every constraint holds. -/
structure IsFeasible (p : Problem ℚ) (y : ℕ → ℚ) : Prop where
  nonneg : ∀ j < p.numVariables, 0 ≤ y j
  holds : ∀ c ∈ p.constraints, c.Holds y

/-- The value of the objective at a point. -/
def objectiveAt (p : Problem ℚ) (y : ℕ → ℚ) : ℚ := linearAt p.objective.coefficients y

/-- The first value is at least as good as the second one. -/
def IsAsGood (p : Problem ℚ) (v w : ℚ) : Prop := if p.objective.minimize then v ≤ w else w ≤ v

/-- A feasible point with the best value of the objective, the least or the largest as it is
wanted. -/
def IsBest (p : Problem ℚ) (y : ℕ → ℚ) : Prop :=
  p.IsFeasible y ∧ ∀ z, p.IsFeasible z → p.IsAsGood (p.objectiveAt y) (p.objectiveAt z)

/-- A tableau whose points are those of a problem, each with the values of the slack variables, and
whose largest cost is the best value of the objective. -/
structure IsStatedBy (p : Problem ℚ) (t : Tableau ℚ) : Prop where
  holds_iff : ∀ y : ℕ → ℚ, (∀ j < p.numVariables, 0 ≤ y j) →
    ((∀ c ∈ p.constraints, c.Holds y) ↔ ∃ s, t.IsFeasible (withSlacks p.numVariables y s))
  slack_unique : ∀ y s s' : ℕ → ℚ, t.Solves 1 (withSlacks p.numVariables y s) →
    t.Solves 1 (withSlacks p.numVariables y s') → ∀ i < t.height, s i = s' i
  objectiveValue_eq : ∀ y s : ℕ → ℚ,
    p.objectiveValue (t.valueAt (withSlacks p.numVariables y s)) = p.objectiveAt y
  isBest_iff : ∀ y : ℕ → ℚ, p.IsBest y ↔ ∃ s, t.IsFeasible (withSlacks p.numVariables y s) ∧
    ∀ z, t.IsFeasible z → t.valueAt z ≤ t.valueAt (withSlacks p.numVariables y s)

/-! ### Points of the tableau -/

section

variable {bounds : List (List ℚ × ℚ)} (h : (p.slackTableau bounds).IsValid) {y s : ℕ → ℚ}

include h

/-- The rows of the tableau ask that each slack variable makes up for what its bound leaves. -/
theorem solves_slackTableau : (p.slackTableau bounds).Solves 1 (withSlacks p.numVariables y s) ↔
    ∀ i bound, bounds[i]? = some bound → linearAt bound.1 y + s i = bound.2 := by
  have hrow : ∀ i bound, bounds[i]? = some bound →
      ((∑ j ∈ Finset.range (p.slackTableau bounds).width,
        (p.slackTableau bounds).rows.entry i j * withSlacks p.numVariables y s j =
          1 * (p.slackTableau bounds).rhsAt i) ↔ linearAt bound.1 y + s i = bound.2) := by
    intro i bound hbound
    have hi : i < bounds.length := (List.getElem?_eq_some_iff.1 hbound).1
    have hget : (p.slackTableau bounds).rows[i]? = some (bound.1 ++ Rows.unit bounds.length i) := by
      rw [getElem?_rows_slackTableau, hbound, Option.map_some]
    have hrhs : (p.slackTableau bounds).rhsAt i = bound.2 := by
      rw [Tableau.rhsAt, slackTableau, List.getD_eq_getElem?_getD, List.getElem?_map, hbound]
      rfl
    have hlen := length_bound h bound (List.mem_of_getElem? hbound)
    rw [hrhs, one_mul, width_slackTableau, ← sum_append_unit hlen hi]
    simp only [Rows.entry_of_getElem? hget]
  rw [Tableau.Solves, height_slackTableau]
  constructor
  · intro hsolves i bound hbound
    exact (hrow i bound hbound).1 (hsolves i (List.getElem?_eq_some_iff.1 hbound).1)
  · intro hbounds i hi
    exact (hrow i _ (List.getElem?_eq_getElem hi)).2 (hbounds i _ (List.getElem?_eq_getElem hi))

theorem isFeasible_slackTableau :
    (p.slackTableau bounds).IsFeasible (withSlacks p.numVariables y s) ↔
      (∀ j < p.numVariables, 0 ≤ y j) ∧ (∀ i < bounds.length, 0 ≤ s i) ∧
        ∀ i bound, bounds[i]? = some bound → linearAt bound.1 y + s i = bound.2 := by
  rw [Tableau.isFeasible_iff, solves_slackTableau h, width_slackTableau, ← and_assoc]
  refine and_congr_left fun _ => ⟨fun hnonneg => ⟨fun j hj => ?_, fun i hi => ?_⟩, ?_⟩
  · simpa [withSlacks, hj] using hnonneg j (by omega)
  · simpa [withSlacks] using hnonneg (p.numVariables + i) (by omega)
  · rintro ⟨hy, hs⟩ j hj
    rw [withSlacks]
    split
    · next hlt => exact hy j hlt
    · next hge => exact hs _ (by omega)

/-- The slack variables can make up for what the bounds leave exactly if no bound is exceeded. -/
theorem exists_isFeasible_slackTableau (hy : ∀ j < p.numVariables, 0 ≤ y j) :
    (∃ s, (p.slackTableau bounds).IsFeasible (withSlacks p.numVariables y s)) ↔
      ∀ bound ∈ bounds, linearAt bound.1 y ≤ bound.2 := by
  simp only [isFeasible_slackTableau h]
  constructor
  · rintro ⟨s, -, hs, hrows⟩ bound hbound
    obtain ⟨i, hi⟩ := List.mem_iff_getElem?.1 hbound
    have hslack := hs i (List.getElem?_eq_some_iff.1 hi).1
    linarith [hrows i bound hi]
  · intro hbounds
    let left : List ℚ × ℚ → ℚ := fun bound => bound.2 - linearAt bound.1 y
    have hleft : ∀ i bound, bounds[i]? = some bound → (bounds.map left).getD i 0 = left bound := by
      intro i bound hi
      rw [List.getD_eq_getElem?_getD, List.getElem?_map, hi, Option.map_some, Option.getD_some]
    refine ⟨fun i => (bounds.map left).getD i 0, hy, fun i hi => ?_, fun i bound hi => ?_⟩
    · dsimp only
      rw [hleft i _ (List.getElem?_eq_getElem hi)]
      exact sub_nonneg.2 (hbounds _ (List.getElem_mem hi))
    · dsimp only
      rw [hleft i bound hi, add_sub_cancel]

omit h in
/-- The costs are the objective, with its sign turned if the least value is wanted. -/
theorem objectiveValue_valueAt (hobjective : p.objective.coefficients.length = p.numVariables) :
    p.objectiveValue ((p.slackTableau bounds).valueAt (withSlacks p.numVariables y s)) =
      p.objectiveAt y := by
  have hvalue : (p.slackTableau bounds).valueAt (withSlacks p.numVariables y s) =
      (if p.objective.minimize then -1 else 1) * p.objectiveAt y := by
    rw [objectiveAt, ← linearAt_map_mul, linearAt, List.length_map, hobjective, Tableau.valueAt,
      width_slackTableau, Finset.sum_range_add]
    have hlen : (p.objective.coefficients.map
        ((if p.objective.minimize then -1 else 1) * ·)).length = p.numVariables := by
      rw [List.length_map, hobjective]
    have hslack : ∑ i ∈ Finset.range bounds.length,
        (p.slackTableau bounds).costAt (p.numVariables + i) *
          withSlacks p.numVariables y s (p.numVariables + i) = 0 := by
      refine Finset.sum_eq_zero fun i hi => ?_
      have hzero : (p.slackTableau bounds).costAt (p.numVariables + i) = 0 := by
        rw [Tableau.costAt, slackTableau, List.getD_append_right _ _ _ _ (by omega), hlen,
          List.getD_replicate _ (by simpa using hi)]
      rw [hzero, zero_mul]
    rw [hslack, add_zero]
    refine Finset.sum_congr rfl fun j hj => ?_
    have hj := Finset.mem_range.1 hj
    rw [Tableau.costAt, slackTableau, List.getD_append _ _ _ _ (by omega), withSlacks, if_pos hj]
  rw [hvalue, objectiveValue]
  split <;> simp

end

/-- A point has the larger cost if its objective is the better one. -/
theorem isAsGood_objectiveValue {v w : ℚ} :
    p.IsAsGood (p.objectiveValue v) (p.objectiveValue w) ↔ w ≤ v := by
  rw [IsAsGood, objectiveValue, objectiveValue]
  split
  · exact neg_le_neg_iff
  · exact Iff.rfl

/-- Every point of the tableau gives values to the variables and to the slack variables. -/
theorem withSlacks_shift (n : ℕ) (z : ℕ → ℚ) : withSlacks n z (fun i => z (n + i)) = z := by
  funext j
  rw [withSlacks]
  split
  · rfl
  · next hj => exact congrArg z (by omega)

/-- A problem is stated by its tableau. -/
theorem isStatedBy_of_toTableau (h : p.toTableau = .ok t) : p.IsStatedBy t := by
  obtain ⟨hobjective, bounds, hbounds, hvalid, rfl⟩ := toTableau_eq_ok.1 h
  obtain ⟨-, rfl⟩ := boundRows_eq_ok.1 hbounds
  have hvalue : ∀ y s : ℕ → ℚ, p.objectiveValue
      ((p.slackTableau (p.constraints.flatMap (·.bounds))).valueAt
        (withSlacks p.numVariables y s)) = p.objectiveAt y :=
    fun y s => objectiveValue_valueAt hobjective
  have hholds : ∀ y : ℕ → ℚ, (∀ j < p.numVariables, 0 ≤ y j) →
      ((∀ c ∈ p.constraints, c.Holds y) ↔ ∃ s,
        (p.slackTableau (p.constraints.flatMap (·.bounds))).IsFeasible
          (withSlacks p.numVariables y s)) := by
    intro y hy
    rw [exists_isFeasible_slackTableau hvalid hy]
    simp only [Constraint.holds_iff, List.mem_flatMap]
    exact ⟨fun h bound ⟨c, hc, hbound⟩ => h c hc bound hbound,
      fun h c hc bound hbound => h bound ⟨c, hc, hbound⟩⟩
  have hfeasible : ∀ y : ℕ → ℚ, p.IsFeasible y ↔ ∃ s,
      (p.slackTableau (p.constraints.flatMap (·.bounds))).IsFeasible
        (withSlacks p.numVariables y s) := by
    intro y
    constructor
    · intro hy
      exact (hholds y hy.nonneg).1 hy.holds
    · rintro ⟨s, hs⟩
      have hy := ((isFeasible_slackTableau hvalid).1 hs).1
      exact ⟨hy, (hholds y hy).2 ⟨s, hs⟩⟩
  refine ⟨hholds, fun y s s' hs hs' i hi => ?_, hvalue, fun y => ⟨?_, ?_⟩⟩
  · have hi' := List.getElem?_eq_getElem (hi.trans_eq height_slackTableau)
    have hrow := (solves_slackTableau hvalid).1 hs i _ hi'
    have hrow' := (solves_slackTableau hvalid).1 hs' i _ hi'
    linarith
  · rintro ⟨hy, hbest⟩
    obtain ⟨s, hs⟩ := (hfeasible y).1 hy
    refine ⟨s, hs, fun z hz => ?_⟩
    rw [← withSlacks_shift p.numVariables z] at hz ⊢
    rw [← isAsGood_objectiveValue (p := p), hvalue, hvalue]
    exact hbest z ((hfeasible z).2 ⟨_, hz⟩)
  · rintro ⟨s, hs, hbest⟩
    refine ⟨(hfeasible y).2 ⟨s, hs⟩, fun z hz => ?_⟩
    obtain ⟨s', hs'⟩ := (hfeasible z).1 hz
    rw [← hvalue y s, ← hvalue z s', isAsGood_objectiveValue]
    exact hbest _ hs'

/-! ### Doubles -/

/-- A bound with the rational numbers that its doubles denote. -/
def readBound (bound : List Float × Float) : List ℚ × ℚ :=
  (bound.1.map Double.toRat, Double.toRat bound.2)

theorem bounds_read (c : Constraint Float) : c.read.bounds = c.bounds.map readBound := by
  have hturned : c.read.coefficients.map (- ·) = (c.coefficients.map (- ·)).map Double.toRat := by
    rw [Constraint.read, List.map_map, List.map_map]
    exact List.map_congr_left fun v _ => (Double.toRat_neg v).symm
  have hrhs : -c.read.rhs = Double.toRat (-c.rhs) := (Double.toRat_neg c.rhs).symm
  rw [Constraint.bounds, Constraint.bounds, hturned, hrhs]
  cases hrelation : c.relation <;> simp [Constraint.read, readBound, hrelation]

theorem map_toRat_unit (n i : Nat) : (Rows.unit n i).map Double.toRat = Rows.unit n i := by
  rw [Rows.unit, Rows.unit, List.map_map]
  refine List.map_congr_left fun j _ => ?_
  dsimp only [Function.comp_apply]
  split
  · exact Double.toRat_one
  · exact Double.toRat_zero

section

variable {p : Problem Float}

/-- The costs of a problem are its coefficients or their negatives, without rounding. -/
theorem map_toRat_costs (hp : p.IsFinite) :
    (p.objective.coefficients.map ((if p.objective.minimize then -1 else 1) * ·)).map Double.toRat =
      p.read.objective.coefficients.map ((if p.objective.minimize then -1 else 1) * ·) := by
  rw [read, List.map_map, List.map_map]
  refine List.map_congr_left fun v hv => ?_
  dsimp only [Function.comp_apply]
  split
  · rw [Double.neg_one_mul (hp.objective v hv), Double.toRat_neg, neg_one_mul]
  · rw [Double.one_mul (hp.objective v hv), one_mul]

theorem read_slackTableau (hp : p.IsFinite) (bounds : List (List Float × Float)) :
    (p.slackTableau bounds).read = p.read.slackTableau (bounds.map readBound) := by
  have hlen : (bounds.map readBound).length = bounds.length := List.length_map _
  have hrows : (p.slackTableau bounds).rows.map (·.map Double.toRat) =
      (p.read.slackTableau (bounds.map readBound)).rows := by
    refine List.ext_getElem? fun i => ?_
    rw [List.getElem?_map, getElem?_rows_slackTableau, getElem?_rows_slackTableau,
      List.getElem?_map, hlen]
    cases bounds[i]? with
    | none => rfl
    | some bound =>
      simp only [Option.map_some, List.map_append, map_toRat_unit, readBound]
  have hcosts : (p.slackTableau bounds).costs.map Double.toRat =
      (p.read.slackTableau (bounds.map readBound)).costs := by
    rw [slackTableau, slackTableau, List.map_append, List.map_replicate, Double.toRat_zero,
      map_toRat_costs hp, hlen]
    rfl
  have hrhs : (p.slackTableau bounds).rhs.map Double.toRat =
      (p.read.slackTableau (bounds.map readBound)).rhs := by
    rw [slackTableau, slackTableau, List.map_map, List.map_map]
    rfl
  have hslacks : freshNames p.read.names (bounds.map readBound).length =
      freshNames p.names bounds.length := by
    rw [hlen]
    rfl
  rw [Tableau.read, hrows, hrhs, hcosts]
  simp only [slackTableau, hslacks]
  rfl

/-- The tableau of a problem is read as the tableau of the problem that is read. -/
theorem toTableau_read {t : Tableau Float} (hp : p.IsFinite) (h : p.toTableau = .ok t) :
    p.read.toTableau = .ok t.read := by
  obtain ⟨⟨hobjective, hconstraints, hnames⟩, rfl⟩ := toTableau_eq_ok_iff.1 h
  have hbounds : p.read.constraints.flatMap (·.bounds) =
      (p.constraints.flatMap (·.bounds)).map readBound := by
    rw [read, List.flatMap_map, List.map_flatMap]
    exact congrArg p.constraints.flatMap (funext bounds_read)
  refine toTableau_eq_ok_iff.2 ⟨⟨?_, ?_, hnames⟩, ?_⟩
  · rw [read, List.length_map]
    exact hobjective
  · intro c hc
    obtain ⟨c', hc', rfl⟩ := List.mem_map.1 hc
    rw [Constraint.read, List.length_map]
    exact hconstraints c' hc'
  · rw [hbounds, read_slackTableau hp]

/-- The tableau of a problem says what the problem says. For every problem with finite coefficients
there is a tableau exactly if the objective and every constraint have one coefficient for each
variable and the variables have different names. The tableau is then canonical with the rows of the
identity in its slack columns, which have new names that differ from each other, and each row has a
label that names the constraint it comes from. Read in exact arithmetic, a point that is not
negative satisfies the constraints exactly if there are slack values with which it satisfies the
tableau, these are unique, its cost is read as its objective, and the points with the largest cost
are the best points of the problem. -/
theorem toTableau_preserves (hp : p.IsFinite) :
    ((∃ t, p.toTableau = .ok t) ↔ p.objective.coefficients.length = p.numVariables ∧
      (∀ c ∈ p.constraints, c.coefficients.length = p.numVariables) ∧ p.names.Nodup) ∧
    ∀ t, p.toTableau = .ok t → p.IsLaidOut t ∧ p.read.IsStatedBy t.read := by
  refine ⟨⟨fun ⟨t, h⟩ => (toTableau_eq_ok_iff.1 h).1, fun h => ?_⟩, fun t h => ⟨?_, ?_⟩⟩
  · exact ⟨_, toTableau_eq_ok_iff.2 ⟨h, rfl⟩⟩
  · exact isLaidOut_of_toTableau h
  · exact isStatedBy_of_toTableau (toTableau_read hp h)

/-- A least cost under a constraint of each kind. One of the goods is called as a slack variable
would be. -/
def leastCostOrder : Problem Float where
  names := ["x", "s2"]
  objective := { coefficients := [2, 3], minimize := true }
  constraints := [
    { name := "demand", coefficients := [1, 2], relation := .atLeast, rhs := 4 },
    { name := "weight", coefficients := [1, 1], relation := .equal, rhs := 7 / 2 },
    { name := "supply", coefficients := [1, 0], relation := .atMost, rhs := 3 }]
  integer := []

theorem toTableau_preserves_leastCostOrder :
    let p := leastCostOrder
    p.IsFinite ∧ ∃ t, p.toTableau = .ok t ∧ t.basis = ["s1", "s3", "s4", "s5"] ∧
      p.rowLabels = ["demand", "weight", "weight", "supply"] ∧ p.IsLaidOut t ∧
      p.read.IsStatedBy t.read := by
  intro p
  have hp : p.IsFinite := ⟨by decide +kernel, by decide +kernel⟩
  obtain ⟨t, ht⟩ := (toTableau_preserves hp).1.2 (by decide +kernel)
  have hbasis : (·.basis) <$> p.toTableau = .ok ["s1", "s3", "s4", "s5"] := by decide +kernel
  rw [ht] at hbasis
  exact ⟨hp, t, ht, Except.ok.inj hbasis, by decide +kernel, (toTableau_preserves hp).2 t ht⟩

end

end Problem

end LinProg
