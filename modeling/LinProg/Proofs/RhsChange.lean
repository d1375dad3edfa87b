import LinProg.Proofs.DualSide
import LinProg.Proofs.Prices
import LinProg.Proofs.Session

/-!
# Other right-hand sides

When the right-hand sides of an optimal program change, its basis stays optimal as long as the
inverse of the basis makes no right-hand side negative. Nothing is pivoted then, and the objective
changes by the dual value of each row for each unit of its right-hand side. The price that the
analysis reports is the reduced cost of the slack variable, which is the dual value less the cost of
that variable: it tells the change of the objective only if the slack variables of the rows that
change cost nothing.
-/

namespace LinProg

/-- A product made of one resource, of which the remainder is sold. -/
def Tableau.soldRemainder : Tableau ℚ where
  rows := [[1, 1]]
  rhs := [4]
  costs := [3, 1]
  names := ["x", "s1"]
  basis := ["s1"]

/-! ### The change of the objective -/

namespace Session

variable {t raw : Tableau ℚ} {solution : Solution ℚ}

/-- Every optimal solution of a session has a snapshot. -/
theorem exists_snapshot_eq_ok (ht : t.IsCanonical) (hid : t.rows.HasIdentityAt t.structural)
    (h : Session t raw solution) (hoptimal : solution.status = .optimal) :
    ∃ snapshot, solution.snapshot = .ok snapshot := by
  obtain ⟨hunder, hrows⟩ := h.underlies ht hid
  have hsame := hunder.sameProgram
  have hcapturable := Revision.isCapturable_of_isValid hunder.isCanonical.toIsValid hunder.isValid
    hunder.hasIdentity hsame.height_eq.symm hsame.width_eq.symm
  obtain ⟨snapshot, hsnapshot⟩ := hcapturable.exists_capture_eq_ok
  refine ⟨snapshot, ?_⟩
  rw [Solution.snapshot, Solution.isOptimal, if_pos (decide_eq_true hoptimal), hrows]
  exact hsnapshot

/-- The objective of an optimal solution of a session weighs the raw right-hand sides with the price
and the slack cost of their rows. -/
theorem objective_eq (ht : t.IsCanonical) (hid : t.rows.HasIdentityAt t.structural)
    (h : Session t raw solution) (hoptimal : solution.status = .optimal) :
    (∀ i < raw.height,
      solution.analysis.priceAt i + raw.costAt (raw.structural + i) = solution.tableau.dualAt i) ∧
      solution.objective =
        ∑ i ∈ Finset.range raw.height, solution.tableau.dualAt i * raw.rhsAt i := by
  obtain ⟨s, t', hunder, hrun⟩ := h.exists_run ht hid
  have hread := Solver.isReadOff_of_run hunder.isCanonical hrun hoptimal
  have hlast := hunder.run hrun
  have hsame := hlast.sameProgram
  have hsum := hlast.isCanonical.structural_add_height
  rw [Solver.objective_of_run hunder.isCanonical hrun, ← hlast.sum_dualAt_mul_rhsAt,
    ← hsame.height_eq, ← hsame.structural_eq]
  refine ⟨fun i hi => ?_, rfl⟩
  rw [hread.priceAt_eq (by omega), Tableau.reducedAt_slack, hsame.costAt_eq, sub_add_cancel]

/-- The dual values of an optimal solution of a session also weigh other right-hand sides, as long
as the inverse of the basis makes none of them negative: its basis stays optimal then, without a
pivot. -/
theorem exists_update_eq_ok (ht : t.IsCanonical) (hid : t.rows.HasIdentityAt t.structural)
    (h : Session t raw solution) {snapshot : Snapshot ℚ}
    (hsnapshot : solution.snapshot = .ok snapshot) (s : Solver) {rhs values : List ℚ}
    (hlen : rhs.length = raw.height) (hvalues : snapshot.basisInverse.apply rhs = .ok values)
    (hnonneg : ∀ v ∈ values, 0 ≤ v) :
    ∃ child, (s.update snapshot (.rhsChange rhs)).outcome = .ok child ∧
      child.status = .optimal ∧ child.steps = [] ∧
      child.tableau.basis = solution.tableau.basis ∧
      child.objective =
        ∑ i ∈ Finset.range raw.height, solution.tableau.dualAt i * rhs.getD i 0 := by
  obtain ⟨s', t', hunder, hrun⟩ := h.exists_run ht hid
  obtain ⟨hbefore, hrows⟩ := h.underlies ht hid
  obtain ⟨-, htableau, hinitial, hcaptured⟩ := Solution.snapshot_eq_ok.1 hsnapshot
  have hoptimum := Solver.isOptimum_of_run hunder.isCanonical hrun hsnapshot
  rw [← htableau] at hbefore
  have hheight := hbefore.sameProgram.height_eq
  -- the revision, with the raw tableau that underlies it
  have hrevision : snapshot.changeRhs rhs = .ok
      { tableau := { snapshot.tableau with rhs := values }, initialRows := snapshot.initialRows } :=
    Snapshot.changeRhs_eq_ok.2 ⟨hheight.trans hlen.symm, values, hvalues, rfl⟩
  obtain ⟨hafter, -⟩ :=
    Snapshot.underlies_changeRhs hcaptured hbefore (hinitial.trans hrows) hrevision
  obtain ⟨hcanonical, hreduced⟩ := hoptimum.dual_changeRhs hrevision
  obtain ⟨child, hchild, hstatus, hsteps, hlast, hvalue⟩ :=
    s.exists_run_of_nonneg hcanonical hnonneg hreduced snapshot.initialRows
  have hupdate : (s.update snapshot (.rhsChange rhs)).outcome = .ok child := by
    refine Recorded.andThen_eq_ok.2 ⟨_, ?_, hchild⟩
    rw [Snapshot.revise, Recorded.outcome_andEvent]
    exact hrevision
  refine ⟨child, hupdate, hstatus, hsteps, ?_, ?_⟩
  · rw [hlast, ← htableau]
  · rw [hvalue, ← hafter.sum_dualAt_mul_rhsAt, hafter.sameProgram.height_eq, ← htableau]
    rfl

/-- As long as the inverse of the basis makes no right-hand side negative, other right-hand sides
leave an optimal solution of a session optimal, with its basis and without a pivot. The objective
changes by the price and the slack cost of each row for each unit of its right-hand side. So it
changes by the prices alone exactly if the slack costs of the changes add up to zero. -/
theorem update_rhsChange (ht : t.IsCanonical) (hid : t.rows.HasIdentityAt t.structural)
    (h : Session t raw solution) (hoptimal : solution.status = .optimal) :
    ∃ snapshot, solution.snapshot = .ok snapshot ∧
      ∀ (s : Solver) (rhs values : List ℚ), rhs.length = raw.height →
        snapshot.basisInverse.apply rhs = .ok values → (∀ v ∈ values, 0 ≤ v) →
        ∃ child, (s.update snapshot (.rhsChange rhs)).outcome = .ok child ∧
          child.status = .optimal ∧ child.steps = [] ∧
          child.tableau.basis = solution.tableau.basis ∧
          child.objective = solution.objective + ∑ i ∈ Finset.range raw.height,
            (solution.analysis.priceAt i + raw.costAt (raw.structural + i)) *
              (rhs.getD i 0 - raw.rhsAt i) ∧
          (child.objective = solution.objective + ∑ i ∈ Finset.range raw.height,
              solution.analysis.priceAt i * (rhs.getD i 0 - raw.rhsAt i) ↔
            ∑ i ∈ Finset.range raw.height,
              raw.costAt (raw.structural + i) * (rhs.getD i 0 - raw.rhsAt i) = 0) := by
  obtain ⟨snapshot, hsnapshot⟩ := h.exists_snapshot_eq_ok ht hid hoptimal
  refine ⟨snapshot, hsnapshot, fun s rhs values hlen hvalues hnonneg => ?_⟩
  obtain ⟨hprice, hobjective⟩ := h.objective_eq ht hid hoptimal
  obtain ⟨child, hupdate, hstatus, hsteps, hbasis, hweighed⟩ :=
    h.exists_update_eq_ok ht hid hsnapshot s hlen hvalues hnonneg
  have hchange : child.objective = solution.objective + ∑ i ∈ Finset.range raw.height,
      (solution.analysis.priceAt i + raw.costAt (raw.structural + i)) *
        (rhs.getD i 0 - raw.rhsAt i) := by
    rw [hweighed, hobjective, ← Finset.sum_add_distrib]
    refine Finset.sum_congr rfl fun i hi => ?_
    rw [hprice i (Finset.mem_range.1 hi)]
    ring
  refine ⟨child, hupdate, hstatus, hsteps, hbasis, hchange, ?_⟩
  simp only [hchange, add_mul, Finset.sum_add_distrib]
  constructor
  · intro heq
    linarith
  · intro hzero
    linarith

/-- One more unit of the resource is made into the product, which takes no pivot. -/
theorem update_rhsChange_soldRemainder :
    let t := Tableau.soldRemainder
    let s : Solver := {}
    t.IsCanonical ∧ t.rows.HasIdentityAt t.structural ∧ ∃ solution snapshot child,
      Session t t solution ∧ solution.status = .optimal ∧ solution.snapshot = .ok snapshot ∧
      ([5] : List ℚ).length = t.height ∧ snapshot.basisInverse.apply [5] = .ok [5] ∧
      (∀ v ∈ ([5] : List ℚ), 0 ≤ v) ∧
      (s.update snapshot (.rhsChange [5])).outcome = .ok child ∧ child.status = .optimal ∧
      child.steps = [] ∧ child.tableau.basis = solution.tableau.basis ∧
      child.objective = solution.objective + ∑ i ∈ Finset.range t.height,
        (solution.analysis.priceAt i + t.costAt (t.structural + i)) *
          (([5] : List ℚ).getD i 0 - t.rhsAt i) := by
  intro t s
  have hcanonical : t.IsCanonical := by decide +kernel
  have hid : t.rows.HasIdentityAt t.structural := by decide +kernel
  have hchain : (do
      let solution ← (s.solve t).outcome
      let snapshot ← solution.snapshot
      return (solution.status, ← snapshot.basisInverse.apply [5]) : Outcome (Status × List ℚ)) =
      .ok (.optimal, [5]) := by
    decide +kernel
  obtain ⟨solution, hsolution, hchain⟩ := Outcome.bind_eq_ok.1 hchain
  obtain ⟨snapshot, hsnapshot, hchain⟩ := Outcome.bind_eq_ok.1 hchain
  obtain ⟨values, hvalues, hchain⟩ := Outcome.bind_eq_ok.1 hchain
  rw [Outcome.pure_eq, Except.ok.injEq, Prod.mk.injEq] at hchain
  obtain ⟨hoptimal, rfl⟩ := hchain
  have hsession : Session t t solution := .solved s hsolution
  have hnonneg : ∀ v ∈ ([5] : List ℚ), 0 ≤ v := by decide
  obtain ⟨snapshot', hsnapshot', hupdates⟩ := update_rhsChange hcanonical hid hsession hoptimal
  rw [hsnapshot, Except.ok.injEq] at hsnapshot'
  subst hsnapshot'
  obtain ⟨child, hchild, hstatus, hsteps, hbasis, hchange, -⟩ :=
    hupdates s [5] [5] rfl hvalues hnonneg
  exact ⟨hcanonical, hid, solution, snapshot, child, hsession, hoptimal, hsnapshot, rfl, hvalues,
    hnonneg, hchild, hstatus, hsteps, hbasis, hchange⟩

/-- The objective does not change by the price alone: from a profit of twelve one more unit at a
price of two leads to fifteen. -/
theorem not_price_soldRemainder :
    let t := Tableau.soldRemainder
    let s : Solver := {}
    t.IsCanonical ∧ t.rows.HasIdentityAt t.structural ∧ ∃ solution snapshot child,
      Session t t solution ∧ solution.status = .optimal ∧ solution.snapshot = .ok snapshot ∧
      snapshot.basisInverse.apply [5] = .ok [5] ∧
      (s.update snapshot (.rhsChange [5])).outcome = .ok child ∧ child.status = .optimal ∧
      solution.objective = 12 ∧ solution.analysis.shadowPrices = [⟨0, "s1", 2⟩] ∧
      child.objective = 15 ∧
      child.objective ≠ solution.objective + ∑ i ∈ Finset.range t.height,
        solution.analysis.priceAt i * (([5] : List ℚ).getD i 0 - t.rhsAt i) := by
  intro t s
  have hchain : (do
      let solution ← (s.solve t).outcome
      let snapshot ← solution.snapshot
      let values ← snapshot.basisInverse.apply [5]
      let child ← (s.update snapshot (.rhsChange [5])).outcome
      return ((solution.status, solution.objective, solution.analysis.shadowPrices), values,
        child.status, child.objective) :
          Outcome ((Status × ℚ × List (ShadowPrice ℚ)) × List ℚ × Status × ℚ)) =
      .ok ((.optimal, 12, [⟨0, "s1", 2⟩]), [5], .optimal, 15) := by
    decide +kernel
  obtain ⟨solution, hsolution, hchain⟩ := Outcome.bind_eq_ok.1 hchain
  obtain ⟨snapshot, hsnapshot, hchain⟩ := Outcome.bind_eq_ok.1 hchain
  obtain ⟨values, hvalues, hchain⟩ := Outcome.bind_eq_ok.1 hchain
  obtain ⟨child, hchild, hchain⟩ := Outcome.bind_eq_ok.1 hchain
  simp only [Outcome.pure_eq, Except.ok.injEq, Prod.mk.injEq] at hchain
  obtain ⟨⟨hoptimal, hobjective, hprices⟩, rfl, hstatus, hvalue⟩ := hchain
  refine ⟨by decide +kernel, by decide +kernel, solution, snapshot, child, .solved s hsolution,
    hoptimal, hsnapshot, hvalues, hchild, hstatus, hobjective, hprices, hvalue, ?_⟩
  have hprice : solution.analysis.priceAt 0 = 2 := by
    rw [Analysis.priceAt, hprices]
    rfl
  have hheight : t.height = 1 := rfl
  have hrhs : t.rhsAt 0 = 4 := rfl
  rw [hvalue, hobjective, hheight, Finset.sum_range_one, hprice, hrhs]
  norm_num

end Session

end LinProg
