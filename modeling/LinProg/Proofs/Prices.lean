import LinProg.Proofs.BasisInverse
import LinProg.Proofs.Problem
import LinProg.Proofs.Verdict

/-!
# The prices of an optimal tableau

The costs of the basic variables, multiplied with the inverse of the basis, give each row a dual
value. The dual values weigh the rows of the raw tableau: they impute to a column its reduced cost
and its own cost together, and to the right-hand sides the objective. The reduced cost of a slack
variable is the dual value of its row less its own cost. If slack variables cost nothing, the prices
that the analysis reads off an optimal tableau are therefore an optimal solution of the dual
program, and together with the reported values they satisfy complementary slackness.
-/

namespace LinProg

namespace Tableau

/-! ### Dual values -/

/-- The dual value of a row: the costs of the basic variables, weighted with the column of the
inverse of the basis. -/
def dualAt (t : Tableau ℚ) (l : Nat) : ℚ :=
  ∑ i ∈ Finset.range t.height, t.costAt (t.basicColumn i) * t.inverseAt i l

variable {t raw : Tableau ℚ}

/-- The reduced cost of a slack variable is the dual value of its row less its own cost. -/
theorem reducedAt_slack (t : Tableau ℚ) (l : Nat) :
    t.reducedAt (t.structural + l) = t.dualAt l - t.costAt (t.structural + l) := rfl

/-- The dual values weigh a vector as the costs of the basic variables weigh its product with the
inverse of the basis. -/
theorem sum_dualAt_mul (t : Tableau ℚ) (w : ℕ → ℚ) :
    ∑ l ∈ Finset.range t.height, t.dualAt l * w l =
      ∑ i ∈ Finset.range t.height, t.costAt (t.basicColumn i) *
        ∑ l ∈ Finset.range t.height, t.inverseAt i l * w l := by
  simp only [dualAt, Finset.sum_mul, Finset.mul_sum]
  rw [Finset.sum_comm]
  exact Finset.sum_congr rfl fun i _ => Finset.sum_congr rfl fun l _ => by ring

namespace Underlies

variable (h : raw.Underlies t)

include h

/-- The dual values impute to a column of the raw tableau its reduced cost and its own cost. -/
theorem sum_dualAt_mul_entry {j : Nat} (hj : j < t.width) :
    ∑ l ∈ Finset.range t.height, t.dualAt l * raw.rows.entry l j = t.reducedAt j + t.costAt j := by
  rw [sum_dualAt_mul, reducedAt, sub_add_cancel]
  exact Finset.sum_congr rfl fun i hi => by rw [h.entry_eq (Finset.mem_range.1 hi) hj]

/-- The dual values of the raw right-hand sides add up to the objective. -/
theorem sum_dualAt_mul_rhsAt :
    ∑ l ∈ Finset.range t.height, t.dualAt l * raw.rhsAt l = t.basicObjective := by
  rw [sum_dualAt_mul, basicObjective]
  exact Finset.sum_congr rfl fun i hi => by rw [h.rhsAt_eq (Finset.mem_range.1 hi)]

end Underlies

/-- A row whose slack columns form the identity sums up to its structural part and its slack
value. -/
theorem IsValid.row_eq (ht : t.IsValid) (hid : t.rows.HasIdentityAt t.structural) (y : ℕ → ℚ)
    {i : Nat} (hi : i < t.height) :
    ∑ j ∈ Finset.range t.width, t.rows.entry i j * y j =
      ∑ j ∈ Finset.range t.structural, t.rows.entry i j * y j + y (t.structural + i) := by
  rw [← ht.structural_add_height, Finset.sum_range_add]
  congr 1
  rw [Finset.sum_eq_single_of_mem i (Finset.mem_range.2 hi)]
  · rw [ht.entry_slack hid hi hi, if_pos rfl, one_mul]
  · intro l hl hli
    rw [ht.entry_slack hid hi (Finset.mem_range.1 hl), if_neg (Ne.symm hli), zero_mul]

/-- At the basic solution a row of the raw tableau holds with equality, its slack variable left out,
exactly if the slack variable is zero. -/
theorem Underlies.basicPoint_slack_eq_zero_iff (h : raw.Underlies t) {i : Nat} (hi : i < t.height) :
    t.basicPoint (t.structural + i) = 0 ↔
      ∑ j ∈ Finset.range t.structural, raw.rows.entry i j * t.basicPoint j = raw.rhsAt i := by
  have hsame := h.sameProgram
  have hi' : i < raw.height := hsame.height_eq ▸ hi
  have hrow := (hsame.solves_iff 1 _).1 h.isCanonical.solves_basicPoint i hi'
  rw [h.isValid.row_eq h.hasIdentity _ hi', one_mul, ← hsame.structural_eq] at hrow
  rw [← hrow]
  exact left_eq_add.symm

/-- A variable with a value other than zero is basic, so it has no reduced cost. -/
theorem IsCanonical.reducedAt_eq_zero (ht : t.IsCanonical) {j : Nat} (hj : t.basicPoint j ≠ 0) :
    t.reducedAt j = 0 := by
  by_contra hne
  refine hj (atBasis_of_ne fun i hi heq => hne ?_)
  rw [← heq]
  exact ht.reducedAt_basicColumn hi

end Tableau

/-! ### Reading the analysis -/

/-- The analysis of a tableau, entry by entry. -/
structure Analysis.IsReadOff (a : Analysis ℚ) (t : Tableau ℚ) : Prop where
  length_shadowPrices : a.shadowPrices.length = t.height
  length_variableCosts : a.variableCosts.length = t.structural
  shadowPrice_eq : ∀ i name, t.names[t.structural + i]? = some name →
    a.shadowPrices[i]? = some ⟨i, name, t.reducedAt (t.structural + i)⟩
  variableCost_eq : ∀ j < t.structural, ∀ name, t.names[j]? = some name →
    a.variableCosts[j]? = some ⟨name, t.basicPoint j, t.reducedAt j, t.isBasic name⟩
  mem_binding : ∀ name, name ∈ a.binding ↔
    ∃ i, t.names[t.structural + i]? = some name ∧ t.basicPoint (t.structural + i) = 0

theorem Analysis.isReadOff_of_compute {t : Tableau ℚ} {costs : ReducedCosts ℚ} {a : Analysis ℚ}
    (ht : t.IsCanonical) (hcosts : ReducedCosts.compute t = .ok costs)
    (h : Analysis.compute t costs = .ok a) : a.IsReadOff t := by
  have hsum := ht.structural_add_height
  have hlen := ReducedCosts.length_reduced ht.toIsWellFormed hcosts
  obtain ⟨values, hvalues, h⟩ := Outcome.bind_eq_ok.1 h
  obtain ⟨-, h⟩ := Outcome.bind_unit_eq_ok.1 h
  rw [ht.values_eq, Except.ok.injEq] at hvalues
  have hvalue : ∀ j name, t.names[j]? = some name → values[j]? = some (name, t.basicPoint j) := by
    intro j name hname
    rw [← hvalues, List.getElem?_map, List.getElem?_zipIdx, hname, zero_add]
    rfl
  have hvalues_len : values.length = t.width := by
    rw [← hvalues, List.length_map, List.length_zipIdx, Tableau.width]
  have hcolumn : ∀ j name, t.names[j]? = some name →
      (values.zip costs.reduced)[j]? = some ((name, t.basicPoint j), t.reducedAt j) := by
    intro j name hname
    have hj : j < t.width := (List.getElem?_eq_some_iff.1 hname).1
    rw [List.zip, List.getElem?_zipWith, hvalue j name hname,
      ReducedCosts.getElem?_reduced ht.toIsWellFormed hcosts hj]
  have hcolumns_len : (values.zip costs.reduced).length = t.width := by
    rw [List.length_zip, hvalues_len, hlen, min_self]
  cases h
  refine ⟨?_, ?_, fun i name hname => ?_, fun j hj name hname => ?_, fun name => ?_⟩
  · simp only [List.length_map, List.length_zipIdx, List.length_drop, hcolumns_len]
    omega
  · simp only [List.length_map, List.length_take, hcolumns_len]
    omega
  · simp only [List.getElem?_map, List.getElem?_zipIdx, List.getElem?_drop, hcolumn _ _ hname,
      Option.map_some, zero_add]
  · simp only [List.getElem?_map, List.getElem?_take_of_lt hj, hcolumn _ _ hname, Option.map_some]
  · rw [List.mem_map]
    constructor
    · rintro ⟨⟨name, value⟩, hmem, rfl⟩
      obtain ⟨hdrop, hzero⟩ := List.mem_filter.1 hmem
      obtain ⟨i, hi⟩ := List.mem_iff_getElem?.1 hdrop
      rw [List.getElem?_drop] at hi
      have hlt : t.structural + i < t.names.length := by
        rw [← Tableau.width, ← hvalues_len]
        exact (List.getElem?_eq_some_iff.1 hi).1
      have hname := List.getElem?_eq_getElem hlt
      rw [hvalue _ _ hname, Option.some_inj, Prod.mk.injEq] at hi
      obtain ⟨rfl, rfl⟩ := hi
      exact ⟨i, hname, isZero_iff.1 hzero⟩
    · rintro ⟨i, hname, hzero⟩
      refine ⟨(name, t.basicPoint (t.structural + i)),
        List.mem_filter.2 ⟨?_, isZero_iff.2 hzero⟩, rfl⟩
      refine List.mem_iff_getElem?.2 ⟨i, ?_⟩
      rw [List.getElem?_drop, hvalue _ _ hname]

/-! ### The dual optimum -/

namespace Analysis

/-- The price that is reported for a row. -/
def priceAt (a : Analysis ℚ) (i : Nat) : ℚ := (a.shadowPrices[i]?.map (·.value)).getD 0

/-- The value that is reported for a structural variable. -/
def valueAt (a : Analysis ℚ) (j : Nat) : ℚ := (a.variableCosts[j]?.map (·.value)).getD 0

/-- The reduced cost that is reported for a structural variable. -/
def reducedAt (a : Analysis ℚ) (j : Nat) : ℚ := (a.variableCosts[j]?.map (·.reduced)).getD 0

/-- The prices solve the dual of the program of a tableau, with the given objective. There is a
price for each row, under the name of its slack variable, and a reduced cost for each structural
variable. No price is negative. What the prices impute to a structural column exceeds its cost by
the reduced cost that is reported, which is not negative, and what they impute to the right-hand
sides is the objective. A row with a price is binding, a variable with a value has no reduced cost,
and the rows that are binding are those that hold with equality at the reported values. -/
structure IsDualOptimum (a : Analysis ℚ) (t : Tableau ℚ) (objective : ℚ) : Prop where
  length_shadowPrices : a.shadowPrices.length = t.height
  length_variableCosts : a.variableCosts.length = t.structural
  slack_eq : ∀ (i : Nat) (price : ShadowPrice ℚ), a.shadowPrices[i]? = some price →
    price.row = i ∧ t.names[t.structural + i]? = some price.slack
  name_eq : ∀ (j : Nat) (cost : VariableCost ℚ), a.variableCosts[j]? = some cost →
    t.names[j]? = some cost.name
  price_nonneg : ∀ i < t.height, 0 ≤ a.priceAt i
  reduced_eq : ∀ j < t.structural,
    ∑ i ∈ Finset.range t.height, a.priceAt i * t.rows.entry i j - t.costAt j = a.reducedAt j
  reduced_nonneg : ∀ j < t.structural, 0 ≤ a.reducedAt j
  objective_eq : ∑ i ∈ Finset.range t.height, a.priceAt i * t.rhsAt i = objective
  mem_binding_of_pos : ∀ i name, t.names[t.structural + i]? = some name → 0 < a.priceAt i →
    name ∈ a.binding
  reduced_eq_zero : ∀ j < t.structural, 0 < a.valueAt j → a.reducedAt j = 0
  mem_binding_iff : ∀ i name, t.names[t.structural + i]? = some name → (name ∈ a.binding ↔
    ∑ j ∈ Finset.range t.structural, t.rows.entry i j * a.valueAt j = t.rhsAt i)

namespace IsReadOff

variable {a : Analysis ℚ} {t : Tableau ℚ} (h : a.IsReadOff t)

include h

theorem priceAt_eq {i : Nat} (hi : t.structural + i < t.width) :
    a.priceAt i = t.reducedAt (t.structural + i) := by
  rw [priceAt, h.shadowPrice_eq i _ (List.getElem?_eq_getElem hi)]
  rfl

theorem valueAt_eq {j : Nat} (hj : j < t.structural) : a.valueAt j = t.basicPoint j := by
  have hj' : j < t.names.length := hj.trans_le (Nat.sub_le _ _)
  rw [valueAt, h.variableCost_eq j hj _ (List.getElem?_eq_getElem hj')]
  rfl

theorem reducedAt_eq {j : Nat} (hj : j < t.structural) : a.reducedAt j = t.reducedAt j := by
  have hj' : j < t.names.length := hj.trans_le (Nat.sub_le _ _)
  rw [reducedAt, h.variableCost_eq j hj _ (List.getElem?_eq_getElem hj')]
  rfl

/-- Each cost in the report is that of the structural variable in its place. -/
theorem variableCost_of_getElem? {j : Nat} {cost : VariableCost ℚ}
    (hj : a.variableCosts[j]? = some cost) :
    ∃ name, t.names[j]? = some name ∧
      cost = ⟨name, t.basicPoint j, t.reducedAt j, t.isBasic name⟩ := by
  have hlt : j < t.structural := h.length_variableCosts ▸ (List.getElem?_eq_some_iff.1 hj).1
  have hname := List.getElem?_eq_getElem (l := t.names) (hlt.trans_le (Nat.sub_le _ _))
  rw [h.variableCost_eq j hlt _ hname, Option.some_inj] at hj
  exact ⟨_, hname, hj.symm⟩

/-- The values in the report are those of the basic solution. -/
theorem basicValue_eq (ht : t.IsCanonical) :
    ∀ cost ∈ a.variableCosts, t.basicValue cost.name = .ok cost.value := by
  intro cost hcost
  obtain ⟨j, hj⟩ := List.mem_iff_getElem?.1 hcost
  obtain ⟨name, hname, rfl⟩ := h.variableCost_of_getElem? hj
  rw [Tableau.basicValue_eq_ok ht.toIsValid, ht.basicPoint_eq hname]

/-- A slack variable is binding exactly if its value is zero. -/
theorem mem_binding_iff (ht : t.IsValid) {i : Nat} {name : String}
    (hname : t.names[t.structural + i]? = some name) :
    name ∈ a.binding ↔ t.basicPoint (t.structural + i) = 0 := by
  rw [h.mem_binding]
  constructor
  · rintro ⟨k, hk, hzero⟩
    obtain ⟨hlt, -⟩ := List.getElem?_eq_some_iff.1 hname
    have heq := (List.getElem?_inj hlt ht.nodup_names).1 (hname.trans hk.symm)
    rwa [heq]
  · intro hzero
    exact ⟨i, hname, hzero⟩

section

variable {raw : Tableau ℚ} (hunder : raw.Underlies t)
  (hcosts : ∀ i < raw.height, raw.costAt (raw.structural + i) = 0)

include hunder hcosts

/-- If slack variables cost nothing, the price of a row is its dual value. -/
theorem priceAt_eq_dualAt {i : Nat} (hi : i < t.height) : a.priceAt i = t.dualAt i := by
  have hsame := hunder.sameProgram
  have hsum := hunder.isCanonical.structural_add_height
  have hcost : t.costAt (t.structural + i) = 0 := by
    rw [hsame.structural_eq, hsame.costAt_eq]
    exact hcosts i (hsame.height_eq ▸ hi)
  rw [h.priceAt_eq (by omega), Tableau.reducedAt_slack, hcost, sub_zero]

/-- The analysis of a tableau without negative reduced costs is an optimal solution of the dual of
any program that underlies it and whose slack variables cost nothing. -/
theorem isDualOptimum (hreduced : ∀ j < t.width, 0 ≤ t.reducedAt j) :
    a.IsDualOptimum raw t.basicObjective := by
  have hsame := hunder.sameProgram
  have hcanonical := hunder.isCanonical
  have hsum := hcanonical.structural_add_height
  have hprice : ∀ i < t.height, a.priceAt i = t.dualAt i :=
    fun i hi => h.priceAt_eq_dualAt hunder hcosts hi
  have hslack : ∀ i name, t.names[t.structural + i]? = some name → i < t.height := by
    intro i name hname
    have hlt : t.structural + i < t.width := (List.getElem?_eq_some_iff.1 hname).1
    omega
  have hweigh : ∀ w : ℕ → ℚ, ∑ i ∈ Finset.range t.height, a.priceAt i * w i =
      ∑ i ∈ Finset.range t.height, t.dualAt i * w i := fun w =>
    Finset.sum_congr rfl fun i hi => by rw [hprice i (Finset.mem_range.1 hi)]
  constructor <;> simp only [← hsame.structural_eq, ← hsame.height_eq, ← hsame.names_eq]
  case length_shadowPrices => exact h.length_shadowPrices
  case length_variableCosts => exact h.length_variableCosts
  case slack_eq =>
    intro i price hi
    have hlt : i < t.height := h.length_shadowPrices ▸ (List.getElem?_eq_some_iff.1 hi).1
    have hlt' : t.structural + i < t.names.length := by
      rw [← Tableau.width]
      omega
    have hname := List.getElem?_eq_getElem hlt'
    rw [h.shadowPrice_eq i _ hname, Option.some_inj] at hi
    subst hi
    exact ⟨rfl, hname⟩
  case name_eq =>
    intro j cost hj
    obtain ⟨name, hname, rfl⟩ := h.variableCost_of_getElem? hj
    exact hname
  case price_nonneg =>
    intro i hi
    rw [h.priceAt_eq (by omega)]
    exact hreduced _ (by omega)
  case reduced_eq =>
    intro j hj
    rw [hweigh, hunder.sum_dualAt_mul_entry (by omega), h.reducedAt_eq hj, hsame.costAt_eq,
      add_sub_cancel_right]
  case reduced_nonneg =>
    intro j hj
    rw [h.reducedAt_eq hj]
    exact hreduced j (by omega)
  case objective_eq => rw [hweigh, hunder.sum_dualAt_mul_rhsAt]
  case mem_binding_of_pos =>
    intro i name hname hpos
    have hi := hslack i name hname
    rw [h.priceAt_eq (by omega)] at hpos
    rw [h.mem_binding_iff hcanonical.toIsValid hname]
    by_contra hne
    exact hpos.ne' (hcanonical.reducedAt_eq_zero hne)
  case reduced_eq_zero =>
    intro j hj hpos
    rw [h.valueAt_eq hj] at hpos
    rw [h.reducedAt_eq hj]
    exact hcanonical.reducedAt_eq_zero hpos.ne'
  case mem_binding_iff =>
    intro i name hname
    have hvalues : ∑ j ∈ Finset.range t.structural, raw.rows.entry i j * a.valueAt j =
        ∑ j ∈ Finset.range t.structural, raw.rows.entry i j * t.basicPoint j :=
      Finset.sum_congr rfl fun j hj => by rw [h.valueAt_eq (Finset.mem_range.1 hj)]
    rw [h.mem_binding_iff hcanonical.toIsValid hname, hvalues]
    exact hunder.basicPoint_slack_eq_zero_iff (hslack i name hname)

end

end IsReadOff

end Analysis

/-! ### Solving -/

/-- A canonical tableau whose slack columns are the identity and cost nothing. -/
structure Tableau.HasFreeSlacks (t : Tableau ℚ) : Prop where
  isCanonical : t.IsCanonical
  hasIdentity : t.rows.HasIdentityAt t.structural
  costAt_eq_zero : ∀ i < t.height, t.costAt (t.structural + i) = 0

/-- The tableau of a problem has slack variables without cost. -/
theorem Problem.hasFreeSlacks_of_toTableau {p : Problem ℚ} {t : Tableau ℚ}
    (h : p.toTableau = .ok t) : t.HasFreeSlacks := by
  obtain ⟨hcanonical, hid, -, hcosts⟩ := toTableau_spec h
  have hsum := hcanonical.structural_add_height
  have hlen := hcanonical.length_costs
  rw [hcosts, List.length_map, List.length_append, List.length_replicate] at hlen
  refine ⟨hcanonical, hid, fun i hi => ?_⟩
  rw [Tableau.costAt, hcosts, List.getD_eq_getElem?_getD, List.getElem?_map,
    List.getElem?_append_right (by omega), List.getElem?_replicate_of_lt (by omega),
    objectiveValue_eq_mul]
  exact mul_zero _

namespace Solver

/-- The analysis of an optimal run is read off its last tableau. -/
theorem isReadOff_of_run {s : Solver} {t : Tableau ℚ} {initialRows : Rows ℚ} {solution : Solution ℚ}
    (ht : t.IsCanonical) (h : (s.run t initialRows).outcome = .ok solution)
    (hoptimal : solution.status = .optimal) : solution.analysis.IsReadOff solution.tableau := by
  obtain ⟨hcanonical, -⟩ := isCanonical_of_run ht h
  obtain ⟨-, r, hend⟩ := run_eq_ok h
  rw [hend.tableau_eq] at hcanonical ⊢
  exact Analysis.isReadOff_of_compute hcanonical (next_cases hend.next_eq).1
    (hend.analysis_eq hoptimal)

/-- The tableau of every problem has slack variables without cost. If such a tableau is solved as
optimal, the analysis reports the values of the solution, and its prices solve the dual program with
the objective of the solution. -/
theorem solve_isDualOptimum (s : Solver) :
    (∀ (p : Problem ℚ) (t : Tableau ℚ), p.toTableau = .ok t → t.HasFreeSlacks) ∧
      ∀ (t : Tableau ℚ) (solution : Solution ℚ), t.HasFreeSlacks →
        (s.solve t).outcome = .ok solution → solution.status = .optimal →
        (∀ cost ∈ solution.analysis.variableCosts,
          solution.tableau.basicValue cost.name = .ok cost.value) ∧
        solution.analysis.IsDualOptimum t solution.objective := by
  refine ⟨fun p t => Problem.hasFreeSlacks_of_toTableau, fun t solution ht h hoptimal => ?_⟩
  obtain ⟨hcanonical, hsame⟩ := isCanonical_of_run ht.isCanonical h
  have hread := isReadOff_of_run ht.isCanonical h hoptimal
  have hunder : t.Underlies solution.tableau :=
    ⟨ht.isCanonical.toIsValid, ht.hasIdentity, hcanonical, hsame⟩
  refine ⟨hread.basicValue_eq hcanonical, ?_⟩
  rw [objective_of_run ht.isCanonical h]
  exact hread.isDualOptimum hunder ht.costAt_eq_zero (nonneg_of_run ht.isCanonical h hoptimal).2

/-- Two products share two resources, and only the first resource has a price. -/
theorem solve_isDualOptimum_sharedResources :
    Tableau.sharedResources.HasFreeSlacks ∧
      ∃ solution, (({} : Solver).solve .sharedResources).outcome = .ok solution ∧
        solution.status = .optimal ∧
        solution.analysis.shadowPrices.map (·.value) = [3, 0] ∧ solution.analysis.binding = ["s1"] ∧
        solution.analysis.IsDualOptimum .sharedResources solution.objective := by
  have hfree : Tableau.sharedResources.HasFreeSlacks :=
    ⟨by decide +kernel, by decide +kernel, by decide +kernel⟩
  have hreport : (fun solution : Solution ℚ => (solution.status,
      solution.analysis.shadowPrices.map (·.value), solution.analysis.binding)) <$>
        (({} : Solver).solve .sharedResources).outcome = .ok (.optimal, [3, 0], ["s1"]) := by
    decide +kernel
  obtain ⟨solution, h, hreport⟩ := Outcome.map_eq_ok.1 hreport
  rw [Prod.mk.injEq, Prod.mk.injEq] at hreport
  obtain ⟨hoptimal, hprices, hbinding⟩ := hreport
  exact ⟨hfree, solution, h, hoptimal, hprices, hbinding,
    ((solve_isDualOptimum {}).2 _ solution hfree h hoptimal).2⟩

end Solver

end LinProg
