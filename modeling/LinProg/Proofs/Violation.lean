import LinProg.Proofs.DualSide
import LinProg.Proofs.Finiteness

/-!
# What a constraint leaves at the optimum

When a new constraint is freed of the basic variables, its right-hand side becomes what the optimal
point leaves of it: it is negative exactly if the point violates the constraint, and it is the only
thing that can keep the revised tableau from being optimal. So new constraints whose slack variables
cost nothing leave an optimum alone exactly if it satisfies them, and the halves of a search node,
whose constraints cut off the optimum of the node, begin with one negative right-hand side, the
last.
-/

namespace LinProg

/-- What a point leaves of the right-hand side of a constraint. -/
def Tableau.leaves (t : Tableau ℚ) (y : ℕ → ℚ) (row : List ℚ) (value : ℚ) : ℚ :=
  value - ∑ j ∈ Finset.range t.width, row.getD j 0 * y j

/-! ### The basic point of a tableau with more rows -/

namespace Tableau

variable {t : Tableau ℚ} {rows : Rows ℚ} {rhs costs : List ℚ}

/-- The old variables keep their values. -/
theorem basicPoint_withRows (ht : t.IsWellFormed)
    (hrows : ∀ row ∈ rows, row.length = t.width + rows.length) (hrhs : rhs.length = rows.length)
    (hcosts : costs.length = rows.length) {j : Nat} (hj : j < t.width) :
    (t.withRows rows rhs costs).basicPoint j = t.basicPoint j := by
  obtain ⟨hold, hnew⟩ := basicColumn_withRows hrows hrhs hcosts ht
  rw [basicPoint, atBasis, height_withRows, Finset.sum_range_add]
  have hslack : ∀ r ∈ Finset.range rows.length,
      (if (t.withRows rows rhs costs).basicColumn (t.height + r) = j then
        (t.withRows rows rhs costs).rhsAt (t.height + r) else 0) = 0 := by
    intro r hr
    rw [hnew r (Finset.mem_range.1 hr), if_neg (by omega)]
  rw [Finset.sum_eq_zero hslack, add_zero]
  refine Finset.sum_congr rfl fun i hi => ?_
  rw [hold i (Finset.mem_range.1 hi), rhsAt_withRows_old ht.toIsValid (Finset.mem_range.1 hi)]

/-- The values of the old variables are read off as before. -/
theorem values_withRows (ht : t.IsCanonical) (ht' : (t.withRows rows rhs costs).IsCanonical)
    (hrows : ∀ row ∈ rows, row.length = t.width + rows.length) (hrhs : rhs.length = rows.length)
    (hcosts : costs.length = rows.length) :
    (·.take t.width) <$> (t.withRows rows rhs costs).values = t.values := by
  rw [ht.values_eq, ht'.values_eq]
  refine congrArg Except.ok (List.ext_getElem? fun j => ?_)
  rw [List.getElem?_take]
  split
  · next hj =>
    have hname : (t.withRows rows rhs costs).names[j]? = t.names[j]? :=
      List.getElem?_append_left hj
    simp only [List.getElem?_map, List.getElem?_zipIdx, hname, zero_add, Option.map_map]
    refine Option.map_congr fun name _ => ?_
    exact congrArg (name, ·) (basicPoint_withRows ht.toIsWellFormed hrows hrhs hcosts hj)
  · next hj =>
    refine (List.getElem?_eq_none ?_).symm
    rw [List.length_map, List.length_zipIdx]
    exact not_lt.1 hj

/-- What the basic point leaves of a constraint. -/
theorem IsWellFormed.leaves_basicPoint (ht : t.IsWellFormed) (row : List ℚ) (value : ℚ) :
    t.leaves t.basicPoint row value =
      value - ∑ i ∈ Finset.range t.height, row.getD (t.basicColumn i) 0 * t.rhsAt i := by
  rw [leaves, basicPoint, ht.sum_atBasis fun j => row.getD j 0]

/-- A constraint is satisfied exactly if something is left of its right-hand side. -/
theorem forall_leaves_nonneg {y : ℕ → ℚ} (hlen : rows.length = rhs.length) :
    (∀ v ∈ List.zipWith (t.leaves y) rows rhs, 0 ≤ v) ↔
      ∀ r < rows.length, ∑ j ∈ Finset.range t.width, rows.entry r j * y j ≤ rhs.getD r 0 := by
  have hleft : ∀ r < rows.length, (List.zipWith (t.leaves y) rows rhs)[r]? =
      some (rhs.getD r 0 - ∑ j ∈ Finset.range t.width, rows.entry r j * y j) := by
    intro r hr
    have hrow : rows[r]? = some rows[r] := List.getElem?_eq_getElem hr
    have hvalue : rhs[r]? = some (rhs.getD r 0) := by
      rw [List.getElem?_eq_getElem (hlen ▸ hr), List.getD_eq_getElem _ _ (hlen ▸ hr)]
    rw [List.getElem?_zipWith, hrow, hvalue]
    simp only [Rows.entry_of_getElem? hrow]
    rfl
  constructor
  · intro h r hr
    exact sub_nonneg.1 (h _ (List.mem_of_getElem? (hleft r hr)))
  · intro h v hv
    obtain ⟨r, hr⟩ := List.mem_iff_getElem?.1 hv
    have hlt : r < rows.length := by
      have hlt := (List.getElem?_eq_some_iff.1 hr).1
      rw [List.length_zipWith] at hlt
      exact hlt.trans_le (min_le_left _ _)
    rw [hleft r hlt, Option.some_inj] at hr
    exact hr ▸ sub_nonneg.2 (h r hlt)

end Tableau

/-! ### Revisions by new constraints -/

/-- The revision puts new rows below the old ones and leaves those alone. The right-hand side of
each new row is what the point leaves of its constraint. -/
structure Revision.MeasuresAt (revision : Revision ℚ) (t : Tableau ℚ) (y : ℕ → ℚ) (rows : Rows ℚ)
    (rhs : List ℚ) : Prop where
  isCanonical : revision.tableau.IsCanonical
  rows_eq : ∃ added : Rows ℚ, added.length = rows.length ∧
    revision.tableau.rows = t.rows.map (· ++ List.replicate rows.length 0) ++ added
  rhs_eq : revision.tableau.rhs = t.rhs ++ List.zipWith (t.leaves y) rows rhs

namespace Snapshot

variable {s : Snapshot ℚ} {rows : Rows ℚ} {rhs : List ℚ} {costs : Option (List ℚ)}
  {revision : Revision ℚ}

/-- The right-hand sides of the folded rows are what the basic point leaves of the constraints. -/
theorem folded_rhs_eq (ht : s.tableau.IsCanonical) (hrhs : rows.length = rhs.length)
    (hnew : ∀ row i, rows[i]? = some row → s.IsNewRow rows.length row i) :
    (s.folded rows rhs).map (·.2) =
      List.zipWith (s.tableau.leaves s.tableau.basicPoint) rows rhs := by
  have hlen := length_map_folded (s := s) (·.2) hrhs
  refine List.ext_getElem ?_ fun r hr hr' => ?_
  · rw [hlen, List.length_zipWith, hrhs, min_self]
  · have hrow : r < rows.length := hlen ▸ hr
    obtain ⟨-, hvalue⟩ := folded_eq ht hrhs hnew hrow
    rw [List.getD_eq_getElem _ _ hr, List.getD_eq_getElem _ _ (hrhs ▸ hrow)] at hvalue
    rw [hvalue, List.getElem_zipWith, ht.leaves_basicPoint]
    simp only [Rows.entry_of_getElem? (List.getElem?_eq_getElem hrow)]

variable (ht : s.tableau.IsCanonical) (h : s.apply (.newConstraints rows rhs costs) = .ok revision)

include ht h

/-- A revision by new constraints has further rows whose right-hand sides are what the basic point
leaves of the constraints. -/
theorem exists_appends_of_newConstraints :
    revision.tableau.IsCanonical ∧ rows.length = rhs.length ∧
      ∃ (added : Rows ℚ) (slackCosts : List ℚ), added.length = rows.length ∧
        revision.Appends s.tableau added
          (List.zipWith (s.tableau.leaves s.tableau.basicPoint) rows rhs) slackCosts := by
  obtain ⟨hrhs, hcosts, hnew, rfl⟩ := (addConstraints_eq_ok ht.toIsWellFormed).1 h
  obtain ⟨slackCosts, happends, -⟩ := appends_constraintRevision hrhs hnew hcosts
  rw [folded_rhs_eq ht hrhs hnew] at happends
  exact ⟨isCanonical_constraintRevision ht hrhs hnew hcosts, hrhs, _, slackCosts,
    length_map_folded _ hrhs, happends⟩

/-- A revision by new constraints measures what the basic point leaves of them. -/
theorem measuresAt_of_newConstraints :
    revision.MeasuresAt s.tableau s.tableau.basicPoint rows rhs := by
  obtain ⟨ht', -, added, slackCosts, hlen, happends⟩ := exists_appends_of_newConstraints ht h
  refine ⟨ht', ⟨added, hlen, ?_⟩, ?_⟩
  · rw [happends.tableau_eq, Tableau.rows_withRows, hlen]
  · rw [happends.tableau_eq]
    rfl

/-- The old variables keep their values in a revision by new constraints. -/
theorem values_of_newConstraints :
    (·.take s.tableau.width) <$> revision.tableau.values = s.tableau.values := by
  obtain ⟨ht', -, added, slackCosts, -, happends⟩ := exists_appends_of_newConstraints ht h
  rw [happends.tableau_eq] at ht' ⊢
  exact Tableau.values_withRows ht ht' happends.length_row happends.length_rhs happends.length_costs

omit ht

/-- New constraints whose slack variables cost nothing change no reduced cost of an old column. -/
theorem IsOptimum.reduced_of_newConstraints {objective : ℚ} (hs : s.IsOptimum objective)
    (hzero : ∀ c ∈ costs, ∀ v ∈ c, v = 0) {before : ReducedCosts ℚ}
    (hbefore : ReducedCosts.compute s.tableau = .ok before) :
    ∃ after, ReducedCosts.compute revision.tableau = .ok after ∧
      after.reduced.take s.tableau.width = before.reduced := by
  obtain ⟨hreduced, -⟩ := hs.reducedAt_addConstraints hzero h
  obtain ⟨ht', -, added, slackCosts, -, happends⟩ :=
    exists_appends_of_newConstraints hs.isCanonical h
  have ht := hs.isCanonical.toIsWellFormed
  obtain ⟨after, hafter, -⟩ := ReducedCosts.exists_compute_eq_ok ht'.toIsWellFormed
  refine ⟨after, hafter, List.ext_getElem? fun j => ?_⟩
  rw [List.getElem?_take]
  split
  · next hj =>
    have hj' : j < revision.tableau.width := by
      rw [happends.tableau_eq, Tableau.width_withRows]
      exact Nat.lt_add_right _ hj
    rw [ReducedCosts.getElem?_reduced ht'.toIsWellFormed hafter hj',
      ReducedCosts.getElem?_reduced ht hbefore hj, hreduced j]
  · next hj =>
    refine (List.getElem?_eq_none ?_).symm
    rw [ReducedCosts.length_reduced ht hbefore]
    exact not_lt.1 hj

/-- If the optimum satisfies new constraints whose slack variables cost nothing, it stays the
optimum without a pivot. If no pivot is taken, the optimum satisfies them. -/
theorem IsOptimum.update_newConstraints {objective : ℚ} (hs : s.IsOptimum objective)
    (hnonneg : ∀ v ∈ s.tableau.rhs, 0 ≤ v) (hzero : ∀ c ∈ costs, ∀ v ∈ c, v = 0) (s' : Solver) :
    (∃ child, (s'.update s (.newConstraints rows rhs costs)).outcome = .ok child ∧
      child.status = .optimal ∧ child.steps = [] ∧ child.objective = objective ∧
      (·.take s.tableau.width) <$> child.tableau.values = s.tableau.values) ↔
    ∀ r < rows.length, ∑ j ∈ Finset.range s.tableau.width,
      rows.entry r j * s.tableau.basicPoint j ≤ rhs.getD r 0 := by
  obtain ⟨ht', hreduced, hobjective⟩ := hs.dual_addConstraints hzero h
  have hrhs := (measuresAt_of_newConstraints hs.isCanonical h).rhs_eq
  obtain ⟨-, hlen, -⟩ := exists_appends_of_newConstraints hs.isCanonical h
  have hupdate : (s'.update s (.newConstraints rows rhs costs)).outcome =
      (s'.run revision.tableau revision.initialRows).outcome := by
    rw [Solver.update, Recorded.outcome_andThen, revise, Recorded.outcome_andEvent, h,
      Outcome.ok_bind, Solver.resolve]
  rw [hupdate, ← Tableau.forall_leaves_nonneg hlen]
  constructor
  · rintro ⟨child, hchild, hoptimal, hsteps, -⟩ v hv
    obtain ⟨hrhs', -⟩ := Solver.nonneg_of_run ht' hchild hoptimal
    rw [Solver.tableau_of_steps_nil hchild hsteps, ← ht'.forall_mem_rhs, hrhs] at hrhs'
    exact hrhs' v (List.mem_append_right _ hv)
  · intro hleaves
    have hnonneg' : ∀ v ∈ revision.tableau.rhs, 0 ≤ v := by
      rw [hrhs, List.forall_mem_append]
      exact ⟨hnonneg, hleaves⟩
    obtain ⟨child, hchild, hoptimal, hsteps, htableau, hvalue⟩ :=
      s'.exists_run_of_nonneg ht' hnonneg' hreduced revision.initialRows
    refine ⟨child, hchild, hoptimal, hsteps, hvalue.trans hobjective, ?_⟩
    rw [htableau]
    exact values_of_newConstraints hs.isCanonical h

end Snapshot

/-! ### The halves of a search node -/

/-- The revision begins with one negative right-hand side, which is given, below those of an
optimum. -/
structure Revision.CutsOff (revision : Revision ℚ) (optimum : Tableau ℚ) (v : ℚ) : Prop where
  neg : v < 0
  rhs_eq : revision.tableau.rhs = optimum.rhs ++ [v]
  rhs_nonneg : ∀ u ∈ optimum.rhs, 0 ≤ u
  classify_eq : ∀ reduced, Standing.classify revision.tableau.rhs reduced =
    .infeasible optimum.height

/-- One negative right-hand side below the others is where the tableau is infeasible. -/
theorem Standing.classify_concat {rhs reduced : List ℚ} {v : ℚ} (hv : v < 0)
    (hrhs : ∀ u ∈ rhs, 0 ≤ u) : classify (rhs ++ [v]) reduced = .infeasible rhs.length := by
  have hnot : (classify (rhs ++ [v]) reduced).isFeasible ≠ true := by
    intro hfeasible
    have hlast :=
      isFeasible_classify.1 hfeasible v (List.mem_append_right _ (List.mem_singleton_self _))
    exact absurd hv (not_lt.2 (isNegative_eq_false_iff.1 hlast))
  cases hstanding : classify (rhs ++ [v]) reduced with
  | optimal => exact absurd (by rw [hstanding]; rfl) hnot
  | improvable => exact absurd (by rw [hstanding]; rfl) hnot
  | infeasible row =>
    obtain ⟨u, hu, hneg⟩ := negative_of_classify hstanding
    have hlt := (List.getElem?_eq_some_iff.1 hu).1
    rw [List.length_append, List.length_singleton] at hlt
    rcases Nat.lt_succ_iff_lt_or_eq.1 hlt with hold | rfl
    · rw [List.getElem?_append_left hold] at hu
      exact absurd (isNegative_iff.1 hneg) (not_lt.2 (hrhs u (List.mem_of_getElem? hu)))
    · rfl

/-- Whether the relaxation of a node is split. -/
def Visit.isSplit {α : Type} : Visit α → Bool
  | .split .. => true
  | _ => false

theorem Visit.exists_of_isSplit {α : Type} {visit : Visit α} (h : visit.isSplit = true) :
    ∃ lower upper, visit = .split lower upper := by
  cases visit with
  | split lower upper => exact ⟨lower, upper, rfl⟩
  | infeasible => cases h
  | pruned => cases h
  | integral objective assignment tableau => cases h

namespace BranchAndBound

/-- A fractional value lies between the whole numbers next to it. -/
theorem floor_lt_and_lt_ceil {v : ℚ} (h : Scalar.isInteger v = false) :
    Arithmetic.floor v < v ∧ v < Arithmetic.ceil v := by
  have hne : ∀ n : ℤ, v ≠ n := by
    rintro n rfl
    exact Bool.eq_false_iff.1 h (isInteger_iff.2 ⟨n, rfl⟩)
  have hfloor : (v.floor : ℚ) ≤ v := Rat.le_floor_iff.1 le_rfl
  have hceil : v ≤ (v.ceil : ℚ) := Rat.ceil_le_iff.1 le_rfl
  exact ⟨hfloor.lt_of_ne (hne _).symm, hceil.lt_of_ne (hne _)⟩

/-- What a point leaves of the bound of a variable. -/
theorem leaves_boundRow {t : Tableau ℚ} {column : Nat} (hcolumn : column < t.width) (sign bound : ℚ)
    (y : ℕ → ℚ) : t.leaves y (boundRow t.width column sign) bound = bound - sign * y column := by
  have hrow : [boundRow t.width column sign][0]? = some (boundRow t.width column sign) := rfl
  have hlast : Rows.entry [boundRow t.width column sign] 0 t.width = 1 := by
    rw [Rows.entry_of_getElem? hrow, List.getD_eq_getElem?_getD,
      getElem?_boundRow sign (Nat.lt_succ_self _), if_pos rfl, Option.getD_some]
  have hsum := sum_boundRow hcolumn sign y
  rw [Finset.sum_range_succ, hlast, one_mul, add_left_inj] at hsum
  rw [Tableau.leaves, ← hsum]
  simp only [Rows.entry_of_getElem? hrow]

/-- A bound that the value of the variable exceeds cuts off the optimum of a relaxation. -/
theorem cutsOff_of_boundRequest {s : Snapshot ℚ} {half : Revision ℚ} (ht : s.tableau.IsCanonical)
    (hrhs : ∀ v ∈ s.tableau.rhs, 0 ≤ v) {column : Nat} (hcolumn : column < s.tableau.width)
    {sign bound : ℚ} (h : s.apply (boundRequest s.tableau.width column sign bound) = .ok half)
    (hbound : bound < sign * s.tableau.basicPoint column) :
    half.CutsOff s.tableau (bound - sign * s.tableau.basicPoint column) := by
  have hmeasures := Snapshot.measuresAt_of_newConstraints ht h
  have heq : half.tableau.rhs =
      s.tableau.rhs ++ [bound - sign * s.tableau.basicPoint column] := by
    rw [hmeasures.rhs_eq, ← leaves_boundRow hcolumn]
    rfl
  refine ⟨sub_neg.2 hbound, heq, hrhs, fun reduced => ?_⟩
  rw [heq, ← ht.length_rhs]
  exact Standing.classify_concat (sub_neg.2 hbound) hrhs

variable {b : BranchAndBound ℚ} {integer : List Bool}

/-- The halves of a node cut off its optimum, each by what lies between the fractional value and the
whole number next to it. -/
theorem cutsOff_of_split {bound : Option ℚ} {number : Nat} {node : Node ℚ}
    {lower upper : Revision ℚ} (hnode : node.revision.tableau.IsCanonical)
    (h : (b.visit integer bound number node).outcome = .ok (.split lower upper)) :
    ∃ (parent : Solution ℚ) (value : ℚ), (b.solver.resolve node.revision).outcome = .ok parent ∧
      parent.status = .optimal ∧ value ∈ parent.tableau.rhs ∧
      lower.CutsOff parent.tableau (Arithmetic.floor value - value) ∧
      upper.CutsOff parent.tableau (value - Arithmetic.ceil value) := by
  obtain ⟨parent, hparent, hfinds⟩ := finds_of_visit h
  obtain ⟨ht, -⟩ := Solver.isCanonical_of_run hnode hparent
  cases hfinds with
  | split hstatus hpruned hfound hsplit =>
    obtain ⟨hrhs, -⟩ := Solver.nonneg_of_run hnode hparent hstatus
    obtain ⟨-, htableau, -, -⟩ := Solution.snapshot_eq_ok.1 hsplit.snapshot_eq
    obtain ⟨i, hi, rfl, hvalue, -, hfractional⟩ := fractional?_eq_some ht.toIsWellFormed hfound
    obtain ⟨hfloor, hceil⟩ := floor_lt_and_lt_ceil hfractional
    have hnonneg := ht.forall_mem_rhs.2 hrhs
    have hcolumn := ht.basicColumn_lt hi
    have hpoint := ht.atBasis_basicColumn parent.tableau.rhsAt hi
    rw [Tableau.rhsAt, List.getD_eq_getElem?_getD, hvalue, Option.getD_some] at hpoint
    have hlower := hsplit.lower_eq
    have hupper := hsplit.upper_eq
    refine ⟨parent, _, hparent, hstatus, List.mem_of_getElem? hvalue, ?_⟩
    rw [← htableau] at ht hnonneg hcolumn hpoint hlower hupper ⊢
    have hcutLower := cutsOff_of_boundRequest ht hnonneg hcolumn hlower
    have hcutUpper := cutsOff_of_boundRequest ht hnonneg hcolumn hupper
    rw [Tableau.basicPoint, hpoint, one_mul] at hcutLower
    rw [Tableau.basicPoint, hpoint, neg_one_mul, sub_neg_eq_add, neg_add_eq_sub] at hcutUpper
    exact ⟨hcutLower hfloor, hcutUpper (neg_lt_neg hceil)⟩

end BranchAndBound

/-! ### Optimal solutions and searches -/

namespace Solver

/-- New constraints measure at the reported values how far they are violated. The revision of an
optimal snapshot is canonical, it keeps the old rows and right-hand sides, and with slack variables
that cost nothing also the old reduced costs; each new right-hand side is what the values leave of
the constraint. So without slack costs the solution stays optimal without a pivot, with its
objective and its values, exactly if its values satisfy every new constraint. The halves of a search
node begin with one negative right-hand side, which is that of their bound. -/
theorem newConstraints_measured {t : Tableau ℚ} (ht : t.IsCanonical) :
    (∀ (s : Solver) (initialRows : Rows ℚ) (solution : Solution ℚ) (snapshot : Snapshot ℚ),
      (s.run t initialRows).outcome = .ok solution → solution.snapshot = .ok snapshot →
      ∃ y : ℕ → ℚ,
        solution.tableau.values = .ok (t.names.zipIdx.map fun (name, j) => (name, y j)) ∧
        ∀ (rows : Rows ℚ) (rhs : List ℚ) (costs : Option (List ℚ)) (revision : Revision ℚ),
          snapshot.apply (.newConstraints rows rhs costs) = .ok revision →
            revision.MeasuresAt solution.tableau y rows rhs ∧
            ((∀ c ∈ costs, ∀ v ∈ c, v = 0) →
              (∃ after, ReducedCosts.compute revision.tableau = .ok after ∧
                after.reduced.take t.width = solution.reducedCosts.reduced) ∧
              ∀ s' : Solver,
                (∃ child,
                  (s'.update snapshot (.newConstraints rows rhs costs)).outcome = .ok child ∧
                  child.status = .optimal ∧ child.steps = [] ∧
                  child.objective = solution.objective ∧
                  (·.take t.width) <$> child.tableau.values = solution.tableau.values) ↔
                ∀ r < rows.length,
                  ∑ j ∈ Finset.range t.width, rows.entry r j * y j ≤ rhs.getD r 0)) ∧
      ∀ (b : BranchAndBound ℚ) (integer : List Bool) (search : Search ℚ) (node : Node ℚ)
        (rest : List (Node ℚ)) (lower upper : Revision ℚ),
        Relation.ReflTransGen (b.Steps integer) (b.start t) search → search.stack = node :: rest →
        (b.visit integer search.bound (search.visited + 1) node).outcome =
            .ok (.split lower upper) →
          ∃ (parent : Solution ℚ) (value : ℚ),
            (b.solver.resolve node.revision).outcome = .ok parent ∧ parent.status = .optimal ∧
            value ∈ parent.tableau.rhs ∧
            lower.CutsOff parent.tableau (Arithmetic.floor value - value) ∧
            upper.CutsOff parent.tableau (value - Arithmetic.ceil value) := by
  refine ⟨fun s initialRows solution snapshot h hsnapshot => ?_,
    fun b integer search node rest lower upper hreaches hstack hvisit => ?_⟩
  · obtain ⟨hcanonical, hsame⟩ := isCanonical_of_run ht h
    have hoptimum := isOptimum_of_run ht h hsnapshot
    obtain ⟨hoptimal, htableau, -, -⟩ := Solution.snapshot_eq_ok.1 hsnapshot
    obtain ⟨hrhs, -⟩ := nonneg_of_run ht h hoptimal
    obtain ⟨-, hcosts, -, -⟩ := reports_of_run h hoptimal
    have hnonneg := hcanonical.forall_mem_rhs.2 hrhs
    refine ⟨solution.tableau.basicPoint, ?_, fun rows rhs costs revision hrevision => ?_⟩
    · rw [hcanonical.values_eq, hsame.names_eq]
    rw [← hsame.width_eq, ← htableau]
    rw [← htableau] at hcosts hnonneg
    refine ⟨Snapshot.measuresAt_of_newConstraints hoptimum.isCanonical hrevision,
      fun hzero => ⟨?_, ?_⟩⟩
    · exact hoptimum.reduced_of_newConstraints hrevision hzero hcosts
    · exact hoptimum.update_newConstraints hrevision hnonneg hzero
  · have hnodes := BranchAndBound.areCanonical_of_reflTransGen ht hreaches
    exact BranchAndBound.cutsOff_of_split (hnodes node (hstack ▸ List.mem_cons_self)) hvisit

/-- With two resources for whole units, a bound of two on the second product is kept without a
pivot, but not one on both products that the optimum exceeds; and the search cuts the optimum off in
both halves of its first node. -/
theorem newConstraints_measured_wholeUnits :
    let t := Tableau.wholeUnits
    let s : Solver := {}
    let b : BranchAndBound ℚ := {}
    let kept : Rows ℚ := [[0, 1, 0, 0, 1]]
    let both : Rows ℚ := [[0, 1, 0, 0, 1, 0], [1, 0, 0, 0, 0, 1]]
    t.IsCanonical ∧ ∃ solution snapshot child revision node lower upper,
      (s.run t t.rows).outcome = .ok solution ∧ solution.snapshot = .ok snapshot ∧
      (s.update snapshot (.newConstraints kept [2] none)).outcome = .ok child ∧
      child.status = .optimal ∧ child.steps = [] ∧ child.objective = solution.objective ∧
      snapshot.apply (.newConstraints both [2, 3] none) = .ok revision ∧
      revision.tableau.IsCanonical ∧
      revision.tableau.rhs = solution.tableau.rhs ++ [3 / 4, -3 / 4] ∧
      (¬ ∃ other, (s.update snapshot (.newConstraints both [2, 3] none)).outcome = .ok other ∧
        other.status = .optimal ∧ other.steps = [] ∧ other.objective = solution.objective ∧
        (·.take t.width) <$> other.tableau.values = solution.tableau.values) ∧
      (b.start t).stack = [node] ∧
      (b.visit [true, true] (b.start t).bound 1 node).outcome = .ok (.split lower upper) ∧
      ∃ parent value, lower.CutsOff parent (Arithmetic.floor value - value) ∧
        upper.CutsOff parent (value - Arithmetic.ceil value) := by
  intro t s b kept both
  have hcanonical : t.IsCanonical := by decide +kernel
  have hchain : (do
      let solution ← (s.run t t.rows).outcome
      let snapshot ← solution.snapshot
      let values ← solution.tableau.values
      let keptRevision ← snapshot.apply (.newConstraints kept [2] none)
      let revision ← snapshot.apply (.newConstraints both [2, 3] none)
      return (values, keptRevision.tableau.rhs, revision.tableau.rhs) :
        Outcome (List (String × ℚ) × List ℚ × List ℚ)) =
      .ok ([("x", 15 / 4), ("y", 5 / 4), ("s1", 0), ("s2", 0)], [5 / 4, 15 / 4, 3 / 4],
        [5 / 4, 15 / 4, 3 / 4, -3 / 4]) := by
    decide +kernel
  obtain ⟨solution, h, hchain⟩ := Outcome.bind_eq_ok.1 hchain
  obtain ⟨snapshot, hsnapshot, hchain⟩ := Outcome.bind_eq_ok.1 hchain
  obtain ⟨values, hvalues, hchain⟩ := Outcome.bind_eq_ok.1 hchain
  obtain ⟨keptRevision, hkept, hchain⟩ := Outcome.bind_eq_ok.1 hchain
  obtain ⟨revision, hboth, hchain⟩ := Outcome.bind_eq_ok.1 hchain
  simp only [Outcome.pure_eq, Except.ok.injEq, Prod.mk.injEq] at hchain
  obtain ⟨rfl, -, hrhs⟩ := hchain
  have hsplit : (·.isSplit) <$> (b.visit [true, true] none 1 ⟨⟨t, t.rows⟩, 0⟩).outcome =
      .ok true := by
    decide +kernel
  obtain ⟨visit, hvisit, hsplit⟩ := Outcome.map_eq_ok.1 hsplit
  obtain ⟨lower, upper, rfl⟩ := Visit.exists_of_isSplit hsplit
  obtain ⟨hmeasured, hsearch⟩ := newConstraints_measured hcanonical
  obtain ⟨y, hy, hrequests⟩ := hmeasured s t.rows solution snapshot h hsnapshot
  rw [hvalues, Except.ok.injEq] at hy
  obtain ⟨hx, hy, -⟩ : y 0 = 15 / 4 ∧ y 1 = 5 / 4 ∧ y 2 = 0 ∧ y 3 = 0 := by
    simpa [t, Tableau.wholeUnits, eq_comm] using hy
  have hfree : ∀ c ∈ (none : Option (List ℚ)), ∀ v ∈ c, v = 0 := by simp
  obtain ⟨-, hkeeps⟩ := hrequests kept [2] none keptRevision hkept
  obtain ⟨hmeasures, hcuts⟩ := hrequests both [2, 3] none revision hboth
  have hwidth : t.width = 4 := rfl
  have hkept : ∀ r < kept.length,
      ∑ j ∈ Finset.range t.width, kept.entry r j * y j ≤ ([2] : List ℚ).getD r 0 := by
    intro r hr
    obtain rfl : r = 0 := Nat.lt_one_iff.1 hr
    norm_num [hwidth, kept, Rows.entry, Finset.sum_range_succ, hy]
  have hcut : ¬ ∀ r < both.length,
      ∑ j ∈ Finset.range t.width, both.entry r j * y j ≤ ([2, 3] : List ℚ).getD r 0 := by
    intro hall
    have hlast := hall 1 (by decide)
    norm_num [hwidth, both, Rows.entry, Finset.sum_range_succ, hx] at hlast
  obtain ⟨child, hchild, hoptimal, hsteps, hobjective, -⟩ := ((hkeeps hfree).2 s).2 hkept
  obtain ⟨parent, value, -, -, -, hlower, hupper⟩ :=
    hsearch b [true, true] (b.start t) _ [] lower upper .refl rfl hvisit
  refine ⟨hcanonical, solution, snapshot, child, revision, _, lower, upper, h, hsnapshot, hchild,
    hoptimal, hsteps, hobjective, hboth, hmeasures.isCanonical, ?_,
    fun hother => hcut (((hcuts hfree).2 s).1 hother), rfl, hvisit, _, _, hlower, hupper⟩
  have hwidth' : solution.tableau.width = 4 := (isCanonical_of_run hcanonical h).2.width_eq
  rw [hmeasures.rhs_eq]
  norm_num [both, Tableau.leaves, hwidth', hx, hy, Finset.sum_range_succ]

end Solver

end LinProg
