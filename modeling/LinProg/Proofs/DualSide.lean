import LinProg.Proofs.Repair
import LinProg.Proofs.Exploration
import LinProg.Proofs.Closure

/-!
# Runs on the dual side

A canonical tableau without negative reduced costs is run by repairs alone. No reduced cost becomes
negative on the way, so the rules that improve the objective are never used and no variable is found
to grow without limit; the objective only falls. The last tableau of an optimal run is such a
tableau. It stays one with other right-hand sides, and with further constraints whose slack
variables cost nothing, since these change neither the reduced costs of its columns nor its
objective. So a constraint never improves on the optimum that it was added to, and the halves of a
search node never exceed the node.
-/

namespace LinProg

/-! ### Reduced costs from zero on -/

namespace Tableau

variable {t : Tableau ℚ}

/-- The reduced costs of the tableau can be computed, and none of them is negative. -/
def IsDualFeasible (t : Tableau ℚ) : Prop :=
  ∃ costs, ReducedCosts.compute t = .ok costs ∧ ∀ v ∈ costs.reduced, 0 ≤ v

theorem isDualFeasible_iff (ht : t.IsWellFormed) :
    t.IsDualFeasible ↔ ∀ j < t.width, 0 ≤ t.reducedAt j := by
  constructor
  · rintro ⟨costs, hcosts, hnonneg⟩ j hj
    exact hnonneg _ ((ReducedCosts.mem_reduced ht hcosts).2 ⟨j, hj, rfl⟩)
  · intro hnonneg
    obtain ⟨costs, hcosts, -⟩ := ReducedCosts.exists_compute_eq_ok ht
    refine ⟨costs, hcosts, fun v hv => ?_⟩
    obtain ⟨j, hj, rfl⟩ := (ReducedCosts.mem_reduced ht hcosts).1 hv
    exact hnonneg j hj

end Tableau

/-! ### Runs -/

/-- What holds of a run on the dual side: its tableau has no negative reduced cost, its objective
has not grown, and all pivots that it has taken repair a row. -/
structure Run.IsDualFrom (t : Tableau ℚ) (r : Run ℚ) : Prop where
  isCanonical : r.tableau.IsCanonical
  reducedAt_nonneg : ∀ j < r.tableau.width, 0 ≤ r.tableau.reducedAt j
  basicObjective_le : r.tableau.basicObjective ≤ t.basicObjective
  rule_eq : ∀ step ∈ r.trail, step.rule = .infeasibility

namespace Solver

variable {s : Solver} {t : Tableau ℚ} {r r' : Run ℚ}

/-- A step from a tableau without negative reduced costs leads to another one, of no greater
objective. -/
theorem Steps.basicObjective_le (h : s.Steps r r') (hr : r.tableau.IsCanonical)
    (hreduced : ∀ j < r.tableau.width, 0 ≤ r.tableau.reducedAt j) :
    r'.tableau.basicObjective ≤ r.tableau.basicObjective := by
  obtain ⟨p, costs, hnext, hadvance⟩ := h
  obtain ⟨hrepairs, -⟩ := repairs_of_next hr hreduced hnext
  exact hrepairs.basicObjective_le hr (apply_of_advance hadvance) hreduced

theorem Steps.isDualFrom (h : s.Steps r r') (hr : r.IsDualFrom t) : r'.IsDualFrom t where
  isCanonical := (h.isCanonical hr.isCanonical).1
  reducedAt_nonneg := h.reducedAt_nonneg hr.isCanonical hr.reducedAt_nonneg
  basicObjective_le :=
    (h.basicObjective_le hr.isCanonical hr.reducedAt_nonneg).trans hr.basicObjective_le
  rule_eq := by
    obtain ⟨p, costs, hnext, hadvance⟩ := h
    obtain ⟨hrepairs, -⟩ := repairs_of_next hr.isCanonical hr.reducedAt_nonneg hnext
    obtain ⟨step, htrail, hrule⟩ := trail_of_advance hadvance
    rw [htrail]
    exact List.forall_mem_cons.2 ⟨hrule.trans hrepairs.rule_eq, hr.rule_eq⟩

/-- A run that begins on the dual side stays there. -/
theorem isDualFrom_of_reflTransGen (h : Relation.ReflTransGen s.Steps (.start t) r)
    (ht : t.IsCanonical) (hreduced : ∀ j < t.width, 0 ≤ t.reducedAt j) : r.IsDualFrom t := by
  induction h with
  | refl => exact ⟨ht, hreduced, le_rfl, fun _ hstep => nomatch hstep⟩
  | tail _ hstep ih => exact hstep.isDualFrom ih

/-- Every run from the tableau is on the dual side: no reduced cost is negative at any time, all
pivots repair a row, the objective falls from each tableau to the next or stays where it is, and no
variable is found to grow without limit. -/
structure StaysDual (s : Solver) (t : Tableau ℚ) : Prop where
  isDualFeasible : ∀ r, Relation.ReflTransGen s.Steps (.start t) r → r.tableau.IsDualFeasible
  rule_eq : ∀ r p costs, Relation.ReflTransGen s.Steps (.start t) r →
    s.next r = .ok (.pivot p, costs) → p.rule = .infeasibility
  objective_le : ∀ r r' costs costs', Relation.ReflTransGen s.Steps (.start t) r → s.Steps r r' →
    ReducedCosts.compute r.tableau = .ok costs → ReducedCosts.compute r'.tableau = .ok costs' →
      costs'.objective ≤ costs.objective
  /-- The solution of a run records repairs only, and it is not unbounded. -/
  of_run : ∀ initialRows solution, (s.run t initialRows).outcome = .ok solution →
    (∀ step ∈ solution.steps, step.rule = .infeasibility) ∧
      ∀ column name, solution.status ≠ .unbounded column name

section

variable (ht : t.IsCanonical) (hreduced : ∀ j < t.width, 0 ≤ t.reducedAt j)

include ht hreduced

/-- The solution of a run on the dual side is on the dual side. -/
theorem exists_isDualFrom_of_run {initialRows : Rows ℚ} {solution : Solution ℚ}
    (h : (s.run t initialRows).outcome = .ok solution) :
    ∃ last, s.EndsIn t initialRows last solution ∧ last.IsDualFrom t := by
  obtain ⟨-, last, hend⟩ := run_eq_ok h
  exact ⟨last, hend, isDualFrom_of_reflTransGen hend.reaches ht hreduced⟩

/-- The objective of a solution is not greater than the one that the run began with. -/
theorem objective_le_of_run {initialRows : Rows ℚ} {solution : Solution ℚ}
    (h : (s.run t initialRows).outcome = .ok solution) : solution.objective ≤ t.basicObjective := by
  obtain ⟨last, hend, hlast⟩ := exists_isDualFrom_of_run ht hreduced h
  rw [objective_of_run ht h, hend.tableau_eq]
  exact hlast.basicObjective_le

/-- A canonical tableau without negative reduced costs is run on the dual side. -/
theorem staysDual (s : Solver) : s.StaysDual t where
  isDualFeasible r hreaches := by
    have hr := isDualFrom_of_reflTransGen hreaches ht hreduced
    exact (Tableau.isDualFeasible_iff hr.isCanonical.toIsWellFormed).2 hr.reducedAt_nonneg
  rule_eq r p costs hreaches hnext := by
    have hr := isDualFrom_of_reflTransGen hreaches ht hreduced
    exact (repairs_of_next hr.isCanonical hr.reducedAt_nonneg hnext).1.rule_eq
  objective_le r r' costs costs' hreaches hstep hcosts hcosts' := by
    have hr := isDualFrom_of_reflTransGen hreaches ht hreduced
    rw [ReducedCosts.objective_eq hr.isCanonical.toIsWellFormed hcosts,
      ReducedCosts.objective_eq (hstep.isDualFrom hr).isCanonical.toIsWellFormed hcosts']
    exact hstep.basicObjective_le hr.isCanonical hr.reducedAt_nonneg
  of_run initialRows solution h := by
    obtain ⟨last, hend, hlast⟩ := exists_isDualFrom_of_run ht hreduced h
    refine ⟨fun step hstep => ?_, fun column name hstatus => ?_⟩
    · rw [hend.steps_eq, List.mem_reverse] at hstep
      exact hlast.rule_eq step hstep
    · rcases status_of_run_repair ht hreduced h with hoptimal | ⟨row, name', hinfeasible⟩
      · rw [hstatus] at hoptimal
        cases hoptimal
      · rw [hstatus] at hinfeasible
        cases hinfeasible

end

end Solver

/-! ### Further constraints -/

namespace Tableau

variable {t : Tableau ℚ} {rows : Rows ℚ} {rhs costs : List ℚ}

theorem reducedAt_of_width_le (ht : t.IsValid) {j : Nat} (hj : t.width ≤ j) :
    t.reducedAt j = 0 := by
  have hcost : t.costAt j = 0 := List.getD_eq_default _ _ (ht.length_costs.trans_le hj)
  rw [reducedAt, hcost, sub_zero]
  exact Finset.sum_eq_zero fun i _ => by rw [ht.hasShape.entry_of_width_le i hj, mul_zero]

section

variable (ht : t.IsWellFormed) (hrows : ∀ row ∈ rows, row.length = t.width + rows.length)
  (hrhs : rhs.length = rows.length) (hcosts : costs.length = rows.length)
  (hzero : ∀ v ∈ costs, v = 0)

include hzero in
/-- Slack variables without cost change no cost. -/
theorem costAt_withRows (j : Nat) : (t.withRows rows rhs costs).costAt j = t.costAt j := by
  rcases lt_or_ge j t.costs.length with hj | hj
  · exact List.getD_append _ _ _ _ hj
  · refine (List.getD_append_right _ _ _ _ hj).trans ?_
    rw [costAt, List.getD_eq_default _ _ hj, List.getD_eq_getElem?_getD]
    cases h : costs[j - t.costs.length]? with
    | none => rfl
    | some v => exact hzero v (List.mem_of_getElem? h)

include ht hrows hrhs hcosts hzero

/-- A sum that is weighted with the costs of the basic variables has no part in the new rows. -/
theorem sum_basic_withRows (f : ℕ → ℚ) :
    ∑ i ∈ Finset.range (t.withRows rows rhs costs).height,
        (t.withRows rows rhs costs).costAt ((t.withRows rows rhs costs).basicColumn i) * f i =
      ∑ i ∈ Finset.range t.height, t.costAt (t.basicColumn i) * f i := by
  obtain ⟨hold, hnew⟩ := basicColumn_withRows hrows hrhs hcosts ht
  rw [height_withRows, Finset.sum_range_add]
  simp only [costAt_withRows hzero]
  have hslack : ∀ r ∈ Finset.range rows.length,
      t.costAt ((t.withRows rows rhs costs).basicColumn (t.height + r)) * f (t.height + r) = 0 := by
    intro r hr
    rw [hnew r (Finset.mem_range.1 hr), costAt,
      List.getD_eq_default _ _ (ht.length_costs.trans_le (Nat.le_add_right _ r)), zero_mul]
  rw [Finset.sum_eq_zero hslack, add_zero]
  exact Finset.sum_congr rfl fun i hi => by rw [hold i (Finset.mem_range.1 hi)]

theorem reducedAt_withRows (j : Nat) : (t.withRows rows rhs costs).reducedAt j = t.reducedAt j := by
  rw [reducedAt, sum_basic_withRows ht hrows hrhs hcosts hzero, costAt_withRows hzero, reducedAt]
  congr 1
  exact Finset.sum_congr rfl fun i hi => by rw [entry_withRows_old (Finset.mem_range.1 hi)]

theorem basicObjective_withRows :
    (t.withRows rows rhs costs).basicObjective = t.basicObjective := by
  rw [basicObjective, sum_basic_withRows ht hrows hrhs hcosts hzero, basicObjective]
  exact Finset.sum_congr rfl fun i hi => by
    rw [rhsAt_withRows_old ht.toIsValid (Finset.mem_range.1 hi)]

end

end Tableau

/-! ### Optimal snapshots -/

/-- The snapshot has a canonical tableau without negative reduced costs, whose objective is
given. -/
structure Snapshot.IsOptimum (s : Snapshot ℚ) (objective : ℚ) : Prop extends s.IsCaptured where
  isCanonical : s.tableau.IsCanonical
  reducedAt_nonneg : ∀ j < s.tableau.width, 0 ≤ s.tableau.reducedAt j
  objective_eq : s.tableau.basicObjective = objective

/-- The snapshot of a solution has its objective. -/
theorem Solver.isOptimum_of_run {s : Solver} {t : Tableau ℚ} (ht : t.IsCanonical)
    {initialRows : Rows ℚ} {solution : Solution ℚ}
    (h : (s.run t initialRows).outcome = .ok solution) {snapshot : Snapshot ℚ}
    (hsnapshot : solution.snapshot = .ok snapshot) : snapshot.IsOptimum solution.objective := by
  obtain ⟨hoptimal, htableau, -, hcaptured⟩ := Solution.snapshot_eq_ok.1 hsnapshot
  have hcanonical := (isCanonical_of_run ht h).1
  obtain ⟨-, hreduced⟩ := nonneg_of_run ht h hoptimal
  have hobjective := objective_of_run ht h
  rw [← htableau] at hcanonical hreduced hobjective
  exact ⟨hcaptured, hcanonical, hreduced, hobjective.symm⟩

namespace Snapshot

variable {s : Snapshot ℚ} {objective : ℚ} {revision : Revision ℚ} (hs : s.IsOptimum objective)

include hs

/-- Other right-hand sides change no reduced cost. -/
theorem IsOptimum.dual_changeRhs {rhs : List ℚ} (h : s.apply (.rhsChange rhs) = .ok revision) :
    revision.tableau.IsCanonical ∧
      ∀ j < revision.tableau.width, 0 ≤ revision.tableau.reducedAt j := by
  have hvalid := (extends_changeRhs hs.toIsCaptured h).isValid
  obtain ⟨-, rhs', -, rfl⟩ := changeRhs_eq_ok.1 h
  exact ⟨⟨⟨hvalid, hs.isCanonical.basis_subset⟩, hs.isCanonical.unit_basicColumn⟩,
    hs.reducedAt_nonneg⟩

/-- Constraints whose slack variables cost nothing change neither a reduced cost nor the
objective. -/
theorem IsOptimum.reducedAt_addConstraints {rows : Rows ℚ} {rhs : List ℚ} {costs : Option (List ℚ)}
    (hzero : ∀ c ∈ costs, ∀ v ∈ c, v = 0)
    (h : s.apply (.newConstraints rows rhs costs) = .ok revision) :
    (∀ j, revision.tableau.reducedAt j = s.tableau.reducedAt j) ∧
      revision.tableau.basicObjective = objective := by
  have ht := hs.isCanonical.toIsWellFormed
  obtain ⟨hrhs, hcosts, hnew, rfl⟩ := (addConstraints_eq_ok ht).1 h
  obtain ⟨slackCosts, happends, hfree⟩ := appends_constraintRevision hrhs hnew hcosts
  rw [happends.tableau_eq, ← hs.objective_eq]
  exact ⟨Tableau.reducedAt_withRows ht happends.length_row happends.length_rhs
      happends.length_costs (hfree hzero),
    Tableau.basicObjective_withRows ht happends.length_row happends.length_rhs
      happends.length_costs (hfree hzero)⟩

/-- Such constraints keep the tableau canonical and leave no reduced cost negative. -/
theorem IsOptimum.dual_addConstraints {rows : Rows ℚ} {rhs : List ℚ} {costs : Option (List ℚ)}
    (hzero : ∀ c ∈ costs, ∀ v ∈ c, v = 0)
    (h : s.apply (.newConstraints rows rhs costs) = .ok revision) :
    revision.tableau.IsCanonical ∧
      (∀ j < revision.tableau.width, 0 ≤ revision.tableau.reducedAt j) ∧
      revision.tableau.basicObjective = objective := by
  obtain ⟨hreduced, hobjective⟩ := hs.reducedAt_addConstraints hzero h
  have ht := hs.isCanonical.toIsWellFormed
  obtain ⟨hrhs, hcosts, hnew, rfl⟩ := (addConstraints_eq_ok ht).1 h
  refine ⟨isCanonical_constraintRevision hs.isCanonical hrhs hnew hcosts, fun j _ => ?_, hobjective⟩
  rw [hreduced]
  rcases lt_or_ge j s.tableau.width with hj | hj
  · exact hs.reducedAt_nonneg j hj
  · exact (Tableau.reducedAt_of_width_le ht.toIsValid hj).ge

/-- A tableau with further constraints is run on the dual side, and no solution exceeds the
objective. -/
theorem IsOptimum.staysDual_addConstraints {rows : Rows ℚ} {rhs : List ℚ}
    {costs : Option (List ℚ)} (hzero : ∀ c ∈ costs, ∀ v ∈ c, v = 0)
    (h : s.apply (.newConstraints rows rhs costs) = .ok revision) (s' : Solver) :
    s'.StaysDual revision.tableau ∧
      ∀ child, (s'.resolve revision).outcome = .ok child → child.objective ≤ objective := by
  obtain ⟨hcanonical, hreduced, hobjective⟩ := hs.dual_addConstraints hzero h
  refine ⟨Solver.staysDual hcanonical hreduced s', fun child hchild => ?_⟩
  exact (Solver.objective_le_of_run hcanonical hreduced hchild).trans_eq hobjective

end Snapshot

/-! ### The halves of a search node -/

namespace BranchAndBound

variable {b : BranchAndBound ℚ} {integer : List Bool}

/-- All nodes of a search that are still to be visited have canonical tableaux. -/
def AreCanonical (s : Search ℚ) : Prop := ∀ node ∈ s.stack, node.revision.tableau.IsCanonical

/-- The halves of a node add one constraint to the optimum of its relaxation. -/
theorem exists_isOptimum_of_split {bound : Option ℚ} {number : Nat} {node : Node ℚ}
    {lower upper : Revision ℚ} (hnode : node.revision.tableau.IsCanonical)
    (h : (b.visit integer bound number node).outcome = .ok (.split lower upper)) :
    ∃ (parent : Solution ℚ) (snapshot : Snapshot ℚ),
      (b.solver.resolve node.revision).outcome = .ok parent ∧
      snapshot.IsOptimum parent.objective ∧
      ∀ half, half = lower ∨ half = upper →
        ∃ rows rhs, snapshot.apply (.newConstraints rows rhs none) = .ok half := by
  obtain ⟨parent, hparent, hfinds⟩ := finds_of_visit h
  cases hfinds with
  | split hstatus hpruned hfound hsplit =>
    refine ⟨parent, _, hparent, Solver.isOptimum_of_run hnode hparent hsplit.snapshot_eq, ?_⟩
    rintro half (rfl | rfl)
    · exact ⟨_, _, hsplit.lower_eq⟩
    · exact ⟨_, _, hsplit.upper_eq⟩

theorem Steps.areCanonical {s s' : Search ℚ} (h : b.Steps integer s s') (hs : AreCanonical s) :
    AreCanonical s' := by
  obtain ⟨node, rest, visit, hstack, hvisit, rfl⟩ := h
  have hnode := hs node (hstack ▸ List.mem_cons_self)
  have hrest : ∀ other ∈ rest, other.revision.tableau.IsCanonical :=
    fun other hother => hs other (hstack ▸ List.mem_cons_of_mem _ hother)
  cases visit with
  | infeasible => exact hrest
  | pruned => exact hrest
  | integral objective assignment tableau => exact hrest
  | split lower upper =>
    obtain ⟨parent, snapshot, -, hoptimum, hhalves⟩ := exists_isOptimum_of_split hnode hvisit
    have hhalf : ∀ half, half = lower ∨ half = upper → half.tableau.IsCanonical := by
      intro half hhalf
      obtain ⟨rows, rhs, hrequest⟩ := hhalves half hhalf
      exact (hoptimum.dual_addConstraints (by simp) hrequest).1
    exact List.forall_mem_cons.2 ⟨hhalf lower (.inl rfl),
      List.forall_mem_cons.2 ⟨hhalf upper (.inr rfl), hrest⟩⟩

theorem areCanonical_of_reflTransGen {t : Tableau ℚ} (ht : t.IsCanonical) {s : Search ℚ}
    (h : Relation.ReflTransGen (b.Steps integer) (b.start t) s) : AreCanonical s := by
  refine invariant_of_reflTransGen (fun _ _ hstep => hstep.areCanonical) h fun node hnode => ?_
  rw [List.mem_singleton.1 hnode]
  exact ht

end BranchAndBound

namespace Solver

/-- A canonical tableau without negative reduced costs is run on the dual side. So is, with any
solver, what a change of the right-hand sides makes of an optimal snapshot, and what new constraints
make of it whose slack variables cost nothing: no solution after such constraints exceeds the
objective of the snapshot. The halves of every node of a search are such revisions of the optimum of
the node. -/
theorem run_staysDual (s : Solver) {t : Tableau ℚ} (ht : t.IsCanonical) :
    (t.IsDualFeasible → s.StaysDual t) ∧
    (∀ initialRows solution snapshot, (s.run t initialRows).outcome = .ok solution →
      solution.snapshot = .ok snapshot → ∀ s' : Solver,
        (∀ rhs revision, snapshot.apply (.rhsChange rhs) = .ok revision →
          s'.StaysDual revision.tableau) ∧
        ∀ rows rhs costs revision, (∀ c ∈ costs, ∀ v ∈ c, v = 0) →
          snapshot.apply (.newConstraints rows rhs costs) = .ok revision →
          s'.StaysDual revision.tableau ∧
            ∀ child, (s'.resolve revision).outcome = .ok child →
              child.objective ≤ solution.objective) ∧
    ∀ (b : BranchAndBound ℚ) (integer : List Bool) state node rest lower upper,
      Relation.ReflTransGen (b.Steps integer) (b.start t) state → state.stack = node :: rest →
      (b.visit integer state.bound (state.visited + 1) node).outcome = .ok (.split lower upper) →
      ∃ parent, (b.solver.resolve node.revision).outcome = .ok parent ∧
        ∀ half, half = lower ∨ half = upper → b.solver.StaysDual half.tableau ∧
          ∀ child, (b.solver.resolve half).outcome = .ok child →
            child.objective ≤ parent.objective := by
  refine ⟨fun hdual => ?_, fun initialRows solution snapshot hrun hsnapshot s' => ?_, ?_⟩
  · exact staysDual ht ((Tableau.isDualFeasible_iff ht.toIsWellFormed).1 hdual) s
  · have hoptimum := isOptimum_of_run ht hrun hsnapshot
    refine ⟨fun rhs revision hrequest => ?_, fun rows rhs costs revision hzero hrequest => ?_⟩
    · obtain ⟨hcanonical, hreduced⟩ := hoptimum.dual_changeRhs hrequest
      exact staysDual hcanonical hreduced s'
    · exact hoptimum.staysDual_addConstraints hzero hrequest s'
  · intro b integer state node rest lower upper hreaches hstack hvisit
    have hnode := BranchAndBound.areCanonical_of_reflTransGen ht hreaches node
      (hstack ▸ List.mem_cons_self)
    obtain ⟨parent, snapshot, hparent, hoptimum, hhalves⟩ :=
      BranchAndBound.exists_isOptimum_of_split hnode hvisit
    refine ⟨parent, hparent, fun half hhalf => ?_⟩
    obtain ⟨rows, rhs, hrequest⟩ := hhalves half hhalf
    exact hoptimum.staysDual_addConstraints (by simp) hrequest b.solver

/-- A demand is met at a cost of four, and at a cost of eight when only one unit of the second
product may be used. A smaller demand asks for one and a half units of it, and its search node is
split. -/
theorem run_staysDual_leastCostDemand :
    let t := Tableau.leastCostDemand
    let t' : Tableau ℚ := { t with rhs := [-3, 5] }
    let s : Solver := {}
    let b : BranchAndBound ℚ := {}
    t.IsCanonical ∧ s.StaysDual t ∧
      (∃ solution snapshot revision child, (s.run t t.rows).outcome = .ok solution ∧
        solution.snapshot = .ok snapshot ∧
        snapshot.apply (.newConstraints [[0, 1, 0, 0, 1]] [1] none) = .ok revision ∧
        s.StaysDual revision.tableau ∧ (s.resolve revision).outcome = .ok child ∧
        solution.objective = -4 ∧ child.objective = -8 ∧ child.objective ≤ solution.objective) ∧
      ∃ lower upper parent,
        (b.visit [true, true] none 1 ⟨⟨t', t'.rows⟩, 0⟩).outcome = .ok (.split lower upper) ∧
        (b.solver.resolve ⟨t', t'.rows⟩).outcome = .ok parent ∧ b.solver.StaysDual lower.tableau ∧
        b.solver.StaysDual upper.tableau := by
  intro t t' s b
  have hcanonical : t.IsCanonical := by decide +kernel
  have hcanonical' : t'.IsCanonical := by decide +kernel
  have hreduced : ∀ j < t.width, 0 ≤ t.reducedAt j := by decide +kernel
  have hdual := (Tableau.isDualFeasible_iff hcanonical.toIsWellFormed).2 hreduced
  have hchain : (do
      let solution ← (s.run t t.rows).outcome
      let snapshot ← solution.snapshot
      let revision ← snapshot.apply (.newConstraints [[0, 1, 0, 0, 1]] [1] none)
      let child ← (s.resolve revision).outcome
      return (solution.objective, child.objective) : Outcome (ℚ × ℚ)) = .ok (-4, -8) := by
    decide +kernel
  obtain ⟨solution, hsolution, hchain⟩ := Outcome.bind_eq_ok.1 hchain
  obtain ⟨snapshot, hsnapshot, hchain⟩ := Outcome.bind_eq_ok.1 hchain
  obtain ⟨revision, hrevision, hchain⟩ := Outcome.bind_eq_ok.1 hchain
  obtain ⟨child, hchild, hchain⟩ := Outcome.bind_eq_ok.1 hchain
  rw [Outcome.pure_eq, Except.ok.injEq, Prod.mk.injEq] at hchain
  have hfound : (fun visit => match visit with
      | .split .. => true
      | _ => false) <$> (b.visit [true, true] none 1 ⟨⟨t', t'.rows⟩, 0⟩).outcome = .ok true := by
    decide +kernel
  obtain ⟨visit, hvisit, hsplit⟩ := Outcome.map_eq_ok.1 hfound
  obtain ⟨hruns, hupdates, -⟩ := run_staysDual s hcanonical
  obtain ⟨hstays, hle⟩ := (hupdates _ solution snapshot hsolution hsnapshot s).2 _ _ none revision
    (by simp) hrevision
  refine ⟨hcanonical, hruns hdual, ⟨solution, snapshot, revision, child, hsolution, hsnapshot,
    hrevision, hstays, hchild, hchain.1, hchain.2, hle child hchild⟩, ?_⟩
  cases visit with
  | split lower upper =>
    obtain ⟨parent, hparent, hhalves⟩ :=
      (run_staysDual s hcanonical').2.2 b [true, true] (b.start t')
        _ [] lower upper .refl rfl hvisit
    exact ⟨lower, upper, parent, hvisit, hparent, (hhalves lower (.inl rfl)).1,
      (hhalves upper (.inr rfl)).1⟩
  | _ => cases hsplit

end Solver

end LinProg
