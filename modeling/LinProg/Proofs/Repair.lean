import Mathlib.Data.Nat.SuccPred
import Mathlib.Order.SuccPred.Relation
import LinProg.Proofs.Limit
import LinProg.Proofs.Verdict

/-!
# Repairing a tableau without negative reduced costs

At a tableau without negative reduced costs a run halts or repairs a negative right-hand side. The
entering column has the least ratio, so no reduced cost becomes negative, and the objective falls by
the reduced cost of that column for each unit of its value. It stays where it is if that reduced
cost is zero. Nothing keeps such pivots from leading back to a tableau that has been left: the rule
that excludes cycles is not used for them. A run that comes back goes round for ever, and no other
run is endless.
-/

namespace LinProg

open Scalar

/-- A program without costs whose repair leads back to where it began after twelve pivots. -/
def Tableau.repairCircle : Tableau ℚ where
  rows := [[-1/2, -1/2, 1, 0, 0, 0], [11/2, 3/2, 0, 1, 0, 0], [5/2, 1/2, 0, 0, 1, 0],
    [-9, -1, 0, 0, 0, 1]]
  rhs := [-10, 57, 9, 24]
  costs := [0, 0, 0, 0, 0, 0]
  names := ["y1", "y2", "s1", "s2", "s3", "s4"]
  basis := ["s1", "s2", "s3", "s4"]

/-- A demand that two products can meet at different costs. -/
def Tableau.leastCostDemand : Tableau ℚ where
  rows := [[-1, -2, 1, 0], [1, 1, 0, 1]]
  rhs := [-4, 5]
  costs := [-3, -2, 0, 0]
  names := ["x", "y", "s1", "s2"]
  basis := ["s1", "s2"]

theorem Arithmetic.abs_of_nonpos {x : ℚ} (hx : x ≤ 0) : Arithmetic.abs x = -x := by
  rcases hx.lt_or_eq with hneg | rfl
  · exact if_pos hneg
  · rfl

namespace Selection

/-- The ratios that a repair compares: each column with a negative entry in the row has one, its
reduced cost divided by the entry, with the sign turned. -/
theorem getElem?_repairs_eq_some {t : Tableau ℚ} (ht : t.IsWellFormed) {costs : ReducedCosts ℚ}
    (hcosts : ReducedCosts.compute t = .ok costs) (hreduced : ∀ j < t.width, 0 ≤ t.reducedAt j)
    {row : Nat} {entries : List ℚ} (hentries : t.rows[row]? = some entries) {j : Nat} {v : ℚ} :
    ((List.zipWith repairRatio entries costs.reduced).map
        (·.filter Arithmetic.isFinite))[j]? = some (some v) ↔
      j < t.width ∧ t.rows.entry row j < 0 ∧ -(t.reducedAt j / t.rows.entry row j) = v := by
  have hlen : entries.length = t.width := ht.length_row _ (List.mem_of_getElem? hentries)
  rcases lt_or_ge j t.width with hj | hj
  · rw [List.getElem?_map, List.getElem?_zipWith, ReducedCosts.getElem?_reduced ht hcosts hj,
      List.getElem?_eq_getElem (hlen ▸ hj), Rows.entry_of_getElem? hentries,
      List.getD_eq_getElem _ _ (hlen ▸ hj)]
    dsimp only [Option.map_some]
    rw [Option.some_inj]
    by_cases hneg : entries[j] < 0
    · have hratio : t.reducedAt j / entries[j] ≤ 0 :=
        div_nonpos_of_nonneg_of_nonpos (hreduced j hj) hneg.le
      rw [repairRatio, if_pos (isNegative_iff.2 hneg), Arithmetic.abs_of_nonpos hratio]
      exact ⟨fun h => ⟨hj, hneg, Option.some_inj.1 h⟩, fun h => congrArg some h.2.2⟩
    · rw [repairRatio, if_neg (fun h => hneg (isNegative_iff.1 h)), Option.filter_none]
      exact ⟨fun h => (Option.some_ne_none v h.symm).elim, fun h => (hneg h.2.1).elim⟩
  · have hnone : ((List.zipWith repairRatio entries costs.reduced).map
        (·.filter Arithmetic.isFinite))[j]? = none := by
      refine List.getElem?_eq_none ?_
      rw [List.length_map, List.length_zipWith, hlen]
      exact (min_le_left _ _).trans hj
    rw [hnone]
    exact ⟨fun h => (Option.some_ne_none _ h.symm).elim, fun h => absurd h.1 (not_lt.2 hj)⟩

end Selection

/-! ### The pivot -/

namespace Pivot

/-- The pivot enters the column that repairs a negative right-hand side with the least ratio. -/
structure Repairs (p : Pivot ℚ) (t : Tableau ℚ) : Prop where
  readsOff : p.ReadsOff t
  rule_eq : p.rule = .infeasibility
  rhs_neg : t.rhsAt p.row < 0
  element_neg : p.element < 0
  ratio_le : ∀ j < t.width, t.rows.entry p.row j < 0 →
    t.reducedAt j / t.rows.entry p.row j ≤ t.reducedAt p.column / p.element

namespace Repairs

variable {p : Pivot ℚ} {t t' : Tableau ℚ} (h : p.Repairs t) (ht : t.IsCanonical)
  (happly : p.apply t = .ok t') (hreduced : ∀ j < t.width, 0 ≤ t.reducedAt j)

include h ht happly

/-- The objective falls unless the reduced cost of the entering column is zero. -/
theorem basicObjective_eq_iff :
    t'.basicObjective = t.basicObjective ↔ t.reducedAt p.column = 0 := by
  have hvalue := (div_pos_of_neg_of_neg h.rhs_neg h.element_neg).ne'
  rw [basicObjective_apply ht h.readsOff h.element_neg.ne happly, sub_eq_self, mul_eq_zero,
    or_iff_left hvalue]

include hreduced

/-- No reduced cost becomes negative. -/
theorem reducedAt_nonneg : ∀ j < t.width, 0 ≤ t'.reducedAt j := by
  intro j hj
  have hcolumn := hreduced _ (h.readsOff.column_lt ht.toIsValid)
  rw [reducedAt_apply ht h.readsOff h.element_neg.ne happly hj, sub_nonneg]
  rcases le_or_gt 0 (t.rows.entry p.row j) with hentry | hentry
  · have hquotient := div_nonpos_of_nonneg_of_nonpos hentry h.element_neg.le
    exact (mul_nonpos_of_nonneg_of_nonpos hcolumn hquotient).trans (hreduced j hj)
  · have hle := h.ratio_le j hj hentry
    rw [div_le_iff_of_neg hentry] at hle
    rwa [mul_div_assoc', mul_div_right_comm]

/-- The objective does not grow. -/
theorem basicObjective_le : t'.basicObjective ≤ t.basicObjective := by
  have hcolumn := hreduced _ (h.readsOff.column_lt ht.toIsValid)
  rw [basicObjective_apply ht h.readsOff h.element_neg.ne happly]
  exact sub_le_self _ (mul_nonneg hcolumn (div_pos_of_neg_of_neg h.rhs_neg h.element_neg).le)

end Repairs

end Pivot

/-! ### The step -/

namespace Solver

variable {s s' : Solver} {r r' : Run ℚ} {f : ℕ → Run ℚ}

/-- At a tableau without negative reduced costs a pivot repairs a row, and every solver takes it,
however the tableau has been reached. -/
theorem repairs_of_next (hr : r.tableau.IsCanonical)
    (hreduced : ∀ j < r.tableau.width, 0 ≤ r.tableau.reducedAt j) {p : Pivot ℚ}
    {costs : ReducedCosts ℚ} (h : s.next r = .ok (.pivot p, costs)) :
    p.Repairs r.tableau ∧ ∀ (s' : Solver) (r₁ : Run ℚ), r₁.tableau = r.tableau →
      s'.next r₁ = .ok (.pivot p, costs) := by
  obtain ⟨hcosts, ⟨-, hmove⟩ | ⟨hoptimal, selection, hselection, hmove⟩⟩ := next_cases h
  · cases hmove
  cases hmove
  cases hstanding : Standing.classify r.tableau.rhs costs.reduced with
  | optimal => exact absurd hstanding hoptimal
  | improvable =>
    obtain ⟨-, v, hv, hneg⟩ := Standing.classify_eq_improvable.1 hstanding
    obtain ⟨j, hj, rfl⟩ := (ReducedCosts.mem_reduced hr.toIsWellFormed hcosts).1 hv
    exact absurd (hreduced j hj) hneg
  | infeasible row =>
    constructor
    · rw [hstanding] at hselection
      obtain ⟨_, hlowest, hrepair⟩ | ⟨h, -⟩ | ⟨h, -⟩ := select_cases hselection
      · cases hlowest
        obtain ⟨hrow, hneg⟩ := rhsAt_neg_of_classify hr.toIsValid hstanding
        obtain ⟨entries, hentries,
          ⟨h, -⟩ | ⟨q, hq, hrule, rfl, hreads, helement, hratios, hleast⟩⟩ :=
          Selection.repair_cases hrepair
        · cases h
        cases hq
        have hratio {j v} := Selection.getElem?_repairs_eq_some hr.toIsWellFormed hcosts hreduced
          hentries (j := j) (v := v)
        rw [hratios] at hleast
        obtain ⟨v, hv, hle⟩ := leastIndexBy?_le hleast
        obtain ⟨-, -, rfl⟩ := hratio.1 hv
        refine ⟨hreads, hrule, hneg, isNegative_iff.1 helement, fun j hj hentry => ?_⟩
        rw [hreads.element_eq_entry]
        exact neg_le_neg_iff.1 (hle _ (List.mem_of_getElem? (hratio.2 ⟨hj, hentry, rfl⟩)))
      · cases h
      · cases h
    · intro s' r₁ htableau
      rw [← h]
      simp only [next, decideMove, select, htableau, hcosts, Outcome.ok_bind, hstanding,
        Standing.lowestRow?]

/-- A run takes one next pivot only. -/
theorem Steps.unique {r₁ r₂ : Run ℚ} (h₁ : s.Steps r r₁) (h₂ : s.Steps r r₂) : r₁ = r₂ := by
  obtain ⟨p, costs, hnext, hadvance⟩ := h₁
  obtain ⟨p', costs', hnext', hadvance'⟩ := h₂
  rw [hnext] at hnext'
  cases hnext'
  rw [hadvance] at hadvance'
  cases hadvance'
  rfl

/-- A step keeps the reduced costs from becoming negative. -/
theorem Steps.reducedAt_nonneg (h : s.Steps r r') (hr : r.tableau.IsCanonical)
    (hreduced : ∀ j < r.tableau.width, 0 ≤ r.tableau.reducedAt j) :
    ∀ j < r'.tableau.width, 0 ≤ r'.tableau.reducedAt j := by
  rw [(h.isCanonical hr).2.width_eq]
  obtain ⟨p, costs, hnext, hadvance⟩ := h
  obtain ⟨hrepairs, -⟩ := repairs_of_next hr hreduced hnext
  exact hrepairs.reducedAt_nonneg hr (apply_of_advance hadvance) hreduced

/-- A run that begins without negative reduced costs never has any. -/
theorem reducedAt_nonneg_of_reflTransGen (h : Relation.ReflTransGen s.Steps r r')
    (hr : r.tableau.IsCanonical) (hreduced : ∀ j < r.tableau.width, 0 ≤ r.tableau.reducedAt j) :
    ∀ j < r'.tableau.width, 0 ≤ r'.tableau.reducedAt j := by
  refine (invariant_of_reflTransGen (P := fun t => t.IsCanonical ∧ ∀ j < t.width, 0 ≤ t.reducedAt j)
    (fun r₁ r₂ hstep h₁ => ?_) h ⟨hr, hreduced⟩).2
  exact ⟨(hstep.isCanonical h₁.1).1, hstep.reducedAt_nonneg h₁.1 h₁.2⟩

/-- A run takes a pivot that repairs a row and leaves the objective as it is, because the reduced
cost of the entering column is zero. -/
def Stalls (s : Solver) (r r' : Run ℚ) : Prop :=
  ∃ p costs, s.next r = .ok (.pivot p, costs) ∧ r.advance p = .ok r' ∧ p.Repairs r.tableau ∧
    r.tableau.reducedAt p.column = 0

/-! ### An endless run -/

/-- An endless run without negative reduced costs comes back to a tableau and stalls all the way. -/
theorem IsEndless.exists_circle (h : s.IsEndless f) (h₀ : (f 0).tableau.IsCanonical)
    (hreduced : ∀ j < (f 0).tableau.width, 0 ≤ (f 0).tableau.reducedAt j) :
    ∃ m n, Relation.TransGen s.Stalls (f m) (f n) ∧ (f n).tableau = (f m).tableau := by
  have hinvariant : ∀ n, (f n).tableau.IsCanonical ∧
      ∀ j < (f n).tableau.width, 0 ≤ (f n).tableau.reducedAt j := fun n =>
    ⟨(isCanonical_of_reflTransGen (h.reaches n.zero_le) h₀).1,
      reducedAt_nonneg_of_reflTransGen (h.reaches n.zero_le) h₀ hreduced⟩
  have hantitone : Antitone fun n => (f n).tableau.basicObjective := by
    refine antitone_nat_of_succ_le fun n => ?_
    obtain ⟨p, costs, hnext, hadvance⟩ := h n
    obtain ⟨hrepairs, -⟩ := repairs_of_next (hinvariant n).1 (hinvariant n).2 hnext
    exact hrepairs.basicObjective_le (hinvariant n).1 (apply_of_advance hadvance) (hinvariant n).2
  obtain ⟨m, -, n, -, hmn, heq⟩ := h.exists_tableau_eq h₀ Set.infinite_univ
  refine ⟨m, n, ?_, heq.symm⟩
  -- between two equal tableaux the objective stays where it is
  have hstalls : ∀ k ∈ Set.Ico m n, s.Stalls (f k) (f (Order.succ k)) := by
    rintro k ⟨hmk, hkn⟩
    obtain ⟨p, costs, hnext, hadvance⟩ := h k
    obtain ⟨hrepairs, -⟩ := repairs_of_next (hinvariant k).1 (hinvariant k).2 hnext
    refine ⟨p, costs, hnext, hadvance, hrepairs, ?_⟩
    rw [← hrepairs.basicObjective_eq_iff (hinvariant k).1 (apply_of_advance hadvance)]
    refine le_antisymm (hantitone k.le_succ) ?_
    calc (f k).tableau.basicObjective ≤ (f m).tableau.basicObjective := hantitone hmk
      _ = (f n).tableau.basicObjective := by rw [heq]
      _ ≤ (f (k + 1)).tableau.basicObjective := hantitone (Nat.succ_le_of_lt hkn)
  exact (transGen_of_succ_of_lt (fun i j => s.Stalls (f i) (f j)) hstalls hmn).lift f fun _ _ h => h

/-! ### A run that comes back -/

/-- Every solver takes the steps of a run without negative reduced costs from its tableaux. -/
theorem Steps.exists_steps (h : s.Steps r r') (hr : r.tableau.IsCanonical)
    (hreduced : ∀ j < r.tableau.width, 0 ≤ r.tableau.reducedAt j) (s' : Solver) {r₁ : Run ℚ}
    (htableau : r₁.tableau = r.tableau) : ∃ r₂, s'.Steps r₁ r₂ ∧ r₂.tableau = r'.tableau := by
  obtain ⟨p, costs, hnext, hadvance⟩ := h
  obtain ⟨hrepairs, hnext'⟩ := repairs_of_next hr hreduced hnext
  obtain ⟨r₂, hadvance'⟩ := exists_advance_eq_ok (r := r₁) (htableau ▸ hr.toIsValid)
    (htableau ▸ hrepairs.readsOff)
  refine ⟨r₂, ⟨p, costs, hnext' s' r₁ htableau, hadvance'⟩, ?_⟩
  have happly := apply_of_advance hadvance'
  rw [htableau, apply_of_advance hadvance] at happly
  exact (Except.ok.inj happly).symm

section

variable {t : Tableau ℚ} (ht : t.IsCanonical) (hreduced : ∀ j < t.width, 0 ≤ t.reducedAt j)

include ht hreduced

/-- If a run without negative reduced costs comes back to its first tableau, every limit on pivots
is reached. -/
theorem run_of_returns (h : Relation.TransGen s.Steps (.start t) r) (hreturn : r.tableau = t)
    (s' : Solver) (initialRows : Rows ℚ) :
    (s'.run t initialRows).outcome = Outcome.refuse (.iterationLimit s'.maxIterations) := by
  -- the tableau of every later run is one on the way back
  have hway : ∀ r', Relation.ReflTransGen s'.Steps (.start t) r' →
      ∃ q, Relation.ReflTransGen s.Steps (.start t) q ∧ Relation.TransGen s.Steps q r ∧
        r'.tableau = q.tableau := by
    intro r' hreaches
    induction hreaches with
    | refl => exact ⟨.start t, .refl, h, rfl⟩
    | tail _ hstep ih =>
      obtain ⟨q, hq, hback, htableau⟩ := ih
      obtain ⟨q', hqq', hback'⟩ := Relation.TransGen.head'_iff.1 hback
      obtain ⟨r₂, hstep', htableau'⟩ := hqq'.exists_steps (isCanonical_of_reflTransGen hq ht).1
        (reducedAt_nonneg_of_reflTransGen hq ht hreduced) s' htableau
      rw [hstep.unique hstep', htableau']
      rcases Relation.reflTransGen_iff_eq_or_transGen.1 hback' with heq | hback'
      · exact ⟨.start t, .refl, h, heq ▸ hreturn⟩
      · exact ⟨q', hq.tail hqq', hback', rfl⟩
  refine (s'.run_outcome ht.toIsWellFormed initialRows).resolve_left ?_
  rintro ⟨solution, hsolution⟩
  obtain ⟨-, r', hend⟩ := run_eq_ok hsolution
  obtain ⟨q, hq, hback, htableau⟩ := hway r' hend.reaches
  obtain ⟨q', hqq', -⟩ := Relation.TransGen.head'_iff.1 hback
  obtain ⟨r₂, ⟨p, costs, hnext, -⟩, -⟩ := hqq'.exists_steps (isCanonical_of_reflTransGen hq ht).1
    (reducedAt_nonneg_of_reflTransGen hq ht hreduced) s' htableau
  rw [hend.next_eq] at hnext
  cases hnext

/-- A run without negative reduced costs does not end as unbounded. -/
theorem status_of_run_repair {initialRows : Rows ℚ} {solution : Solution ℚ}
    (h : (s.run t initialRows).outcome = .ok solution) :
    solution.status = .optimal ∨ ∃ row name, solution.status = .infeasible row name := by
  have hadmits := admits_of_run ht h
  cases hstatus : solution.status with
  | optimal => exact .inl rfl
  | infeasible row name => exact .inr ⟨row, name, rfl⟩
  | unbounded column name =>
    rw [hstatus] at hadmits
    obtain ⟨y, hy, hvalue, -⟩ := hadmits.2 t.basicObjective 0
    exact absurd (hy.valueAt_le hreduced) (not_le.2 hvalue)

/-- A canonical tableau without negative reduced costs is solved as optimal or infeasible within
every sufficiently large limit on pivots, or every limit is reached: then the run comes back to a
tableau that it has left, through pivots that all repair a row in a column of reduced cost zero. -/
theorem run_repairs (limit : Nat) :
    (∃ N, ∀ n ≥ N, ∀ initialRows, ∃ solution,
        (Solver.run ⟨n, limit⟩ t initialRows).outcome = .ok solution ∧
          (solution.status = .optimal ∨ ∃ row name, solution.status = .infeasible row name)) ∨
      (∀ n initialRows, (Solver.run ⟨n, limit⟩ t initialRows).outcome =
          Outcome.refuse (.iterationLimit n)) ∧
        ∃ r r', Relation.ReflTransGen (Steps ⟨0, limit⟩) (.start t) r ∧
          Relation.TransGen (Stalls ⟨0, limit⟩) r r' ∧ r'.tableau = r.tableau := by
  rcases solves_or_isEndless limit ht.toIsWellFormed with ⟨N, hN⟩ | ⟨hcut, f, hstart, h⟩
  · refine .inl ⟨N, fun n hn initialRows => ?_⟩
    obtain ⟨solution, hsolution⟩ := hN n hn initialRows
    exact ⟨solution, hsolution, status_of_run_repair ht hreduced hsolution⟩
  · have h₀ : (f 0).tableau = t := by rw [hstart]; rfl
    obtain ⟨m, n, hstalls, heq⟩ := h.exists_circle (h₀ ▸ ht) (h₀ ▸ hreduced)
    exact .inr ⟨hcut, f m, f n, hstart ▸ h.reaches m.zero_le, hstalls, heq⟩

end

/-- A demand is met at least cost within every sufficiently large limit. -/
theorem run_repairs_leastCostDemand :
    Tableau.leastCostDemand.IsCanonical ∧
      (∀ j < Tableau.leastCostDemand.width, 0 ≤ Tableau.leastCostDemand.reducedAt j) ∧
      ∃ N, ∀ n ≥ N, ∀ initialRows, ∃ solution,
        (Solver.run ⟨n, 8⟩ .leastCostDemand initialRows).outcome = .ok solution ∧
          (solution.status = .optimal ∨ ∃ row name, solution.status = .infeasible row name) := by
  have hcanonical : Tableau.leastCostDemand.IsCanonical := by decide +kernel
  have hreduced : ∀ j < Tableau.leastCostDemand.width, 0 ≤ Tableau.leastCostDemand.reducedAt j := by
    decide +kernel
  refine ⟨hcanonical, hreduced, (run_repairs hcanonical hreduced 8).resolve_right ?_⟩
  rintro ⟨hcut, -⟩
  have hsolved : (Solver.run ⟨3, 8⟩ .leastCostDemand Tableau.leastCostDemand.rows).outcome ≠
      Outcome.refuse (.iterationLimit 3) := by
    decide +kernel
  exact hsolved (hcut 3 _)

/-- The repair of a program without costs reaches every limit on pivots. -/
theorem run_repairCircle :
    Tableau.repairCircle.IsCanonical ∧
      (∀ j < Tableau.repairCircle.width, 0 ≤ Tableau.repairCircle.reducedAt j) ∧
      ∀ (s : Solver) (initialRows : Rows ℚ), (s.run .repairCircle initialRows).outcome =
        Outcome.refuse (.iterationLimit s.maxIterations) := by
  have hcanonical : Tableau.repairCircle.IsCanonical := by decide +kernel
  have hreduced : ∀ j < Tableau.repairCircle.width, 0 ≤ Tableau.repairCircle.reducedAt j := by
    decide +kernel
  obtain ⟨hreaches, -⟩ := ({} : Solver).walk_spec 12 (.start .repairCircle)
  have hreturn : (({} : Solver).walk 12 (.start .repairCircle)).run.tableau = .repairCircle := by
    decide +kernel
  have hpivots : (({} : Solver).walk 12 (.start .repairCircle)).run.trail.length = 12 := by
    decide +kernel
  refine ⟨hcanonical, hreduced, fun s initialRows => ?_⟩
  rcases Relation.reflTransGen_iff_eq_or_transGen.1 hreaches with heq | hback
  · rw [heq] at hpivots
    cases hpivots
  · exact run_of_returns hcanonical hreduced hback hreturn s initialRows

end Solver

end LinProg
