import LinProg.Proofs.Columns
import LinProg.Proofs.Constraints
import LinProg.Proofs.Verdict

/-!
# Sessions

A session begins with the solution of a tableau and goes on from one solution to the next: an
optimal solution is revised by a request, or one of its alternates is run. Beside it the requests
can be replayed on the tableau of the beginning, without any pivot. In exact arithmetic this raw
tableau underlies every solution of the session, so the inverse of the basis that is read off the
solution is the right one for the next revision.
-/

namespace LinProg

section

variable {α : Type}

/-- The tableau that a request asks for, when nothing has been pivoted yet. -/
def Tableau.edit [Zero α] (t : Tableau α) : Request α → Tableau α
  | .objectiveChange costs => { t with costs }
  | .rhsChange rhs => { t with rhs }
  | .newConstraints rows rhs costs =>
    t.withRows rows rhs (costs.getD (List.replicate rows.length 0))
  | .newVariables columns costs names => t.withColumns columns costs names
  | .coefficientChange rows => { t with rows }

/-- The solutions that can be obtained from a tableau, each with the raw tableau on which the
requests have been replayed. Each run may have limits of its own. -/
inductive Session [Scalar α] (t : Tableau α) : Tableau α → Solution α → Prop where
  | solved {solution : Solution α} (s : Solver) (h : (s.solve t).outcome = .ok solution) :
      Session t t solution
  | updated {raw : Tableau α} {solution solution' : Solution α} {snapshot : Snapshot α}
      (before : Session t raw solution) (hsnapshot : solution.snapshot = .ok snapshot)
      (s : Solver) (request : Request α) (h : (s.update snapshot request).outcome = .ok solution') :
      Session t (raw.edit request) solution'
  | resolved {raw : Tableau α} {solution solution' : Solution α} {a : Alternate α}
      (before : Session t raw solution) (ha : a ∈ solution.alternates) (s : Solver)
      (h : (s.resolve ⟨a.tableau, solution.initialRows⟩).outcome = .ok solution') :
      Session t raw solution'

end

/-! ### One request -/

namespace Snapshot

variable {raw : Tableau ℚ} {s : Snapshot ℚ} {revision : Revision ℚ} (hs : s.IsCaptured)
  (h : raw.Underlies s.tableau) (hinitial : s.initialRows = raw.rows)

include h hinitial

theorem underlies_changeObjective {costs : List ℚ} (hok : s.changeObjective costs = .ok revision) :
    Tableau.Underlies { raw with costs } revision.tableau ∧ revision.initialRows = raw.rows := by
  obtain ⟨hwidth, rfl⟩ := changeObjective_eq_ok.1 hok
  have hcanonical := h.isCanonical
  have hraw : costs.length = raw.width := hwidth.symm.trans h.sameProgram.width_eq
  have hsame : Tableau.SameProgram { raw with costs } { s.tableau with costs } :=
    ⟨h.sameProgram.names_eq, rfl, h.sameProgram.height_eq, h.sameProgram.solves_iff⟩
  exact ⟨⟨h.isValid.replaceCosts hraw, h.hasIdentity, ⟨⟨hcanonical.replaceCosts hwidth.symm,
    hcanonical.basis_subset⟩, hcanonical.unit_basicColumn⟩, hsame⟩, hinitial⟩

include hs

theorem underlies_changeRhs {rhs : List ℚ} (hok : s.changeRhs rhs = .ok revision) :
    Tableau.Underlies { raw with rhs } revision.tableau ∧ revision.initialRows = raw.rows := by
  obtain ⟨hheight, rhs', hproduct, rfl⟩ := changeRhs_eq_ok.1 hok
  obtain ⟨hlen, hentry⟩ :=
    (hs.isValid.apply_basisInverse hs.basisInverse_eq hheight.symm).1 hproduct
  have hcanonical := h.isCanonical
  have hraw : rhs.length = raw.height := hheight.symm.trans h.sameProgram.height_eq
  have hsame : Tableau.SameProgram { raw with rhs } { s.tableau with rhs := rhs' } := by
    refine h.sameProgram_of_inverse h.sameProgram.names_eq h.sameProgram.costs_eq
      h.sameProgram.height_eq.symm rfl (fun i hi j hj => h.entry_eq hi hj) fun i hi => ?_
    exact hentry i hi
  exact ⟨⟨h.isValid.replaceRhs hraw, h.hasIdentity, ⟨⟨hcanonical.replaceRhs hlen,
    hcanonical.basis_subset⟩, hcanonical.unit_basicColumn⟩, hsame⟩, hinitial⟩

omit hs in
theorem underlies_addConstraints {rows : Rows ℚ} {rhs : List ℚ} {costs : Option (List ℚ)}
    (hok : s.addConstraints rows rhs costs = .ok revision) :
    (raw.edit (.newConstraints rows rhs costs)).Underlies revision.tableau ∧
      revision.initialRows = (raw.edit (.newConstraints rows rhs costs)).rows := by
  obtain ⟨hrhs, hcosts, hnew, rfl⟩ := (addConstraints_eq_ok h.isCanonical.toIsWellFormed).1 hok
  have hsame := h.sameProgram
  obtain ⟨hslack, hunit⟩ := entry_newRows_beq h.isCanonical.toIsValid hnew
  rw [hsame.structural_eq, hsame.height_eq] at hslack
  rw [hsame.width_eq] at hunit
  have hrows : ∀ row ∈ rows, row.length = raw.width + rows.length := by
    intro row hrow
    obtain ⟨i, hi⟩ := List.mem_iff_getElem?.1 hrow
    rw [(hnew row i hi).length_eq, hsame.width_eq]
  have hcosts' := length_slackCosts hcosts
  have hprogram : (raw.edit (.newConstraints rows rhs costs)).SameProgram
      (s.constraintRevision rows rhs costs).tableau := by
    refine ⟨?_, ?_, ?_, fun u y => ?_⟩
    · rw [Tableau.edit, constraintRevision, Tableau.withRows, hsame.names_eq]
    · rw [Tableau.edit, constraintRevision, Tableau.withRows, hsame.costs_eq]
    · rw [Tableau.edit, Tableau.height_withRows, tableau_constraintRevision hrhs,
        Tableau.height_withRows, length_map_folded _ hrhs, hsame.height_eq]
    · rw [solves_constraintRevision h.isCanonical hrhs hnew, hsame.solves_iff, hsame.width_eq]
      exact (Tableau.solves_withRows h.isValid).symm
  refine ⟨⟨h.isValid.withRows hrows hrhs.symm hcosts', ?_,
    isCanonical_constraintRevision h.isCanonical hrhs hnew hcosts, hprogram⟩, ?_⟩
  · exact h.isValid.hasIdentity_withRows hrows hrhs.symm hcosts' h.hasIdentity hslack hunit
  · rw [constraintRevision, hinitial]
    rfl

theorem underlies_addVariables {columns : Rows ℚ} {costs : List ℚ} {names : List String}
    (hok : s.addVariables columns costs names = .ok revision) :
    (raw.withColumns columns costs names).Underlies revision.tableau ∧
      revision.initialRows = (raw.withColumns columns costs names).rows := by
  obtain ⟨hcolumns, hcosts, hnames, transformed, hproduct, -, rfl⟩ := (addVariables_eq_ok hs).1 hok
  obtain ⟨hshape, hentry⟩ := (hs.isValid.mul_basisInverse hs.basisInverse_eq hcolumns).1 hproduct
  refine ⟨h.withColumns hcolumns hshape hcosts hnames hentry, ?_⟩
  rw [Tableau.rows_withColumns, ← h.sameProgram.structural_eq, hinitial]

/-- The raw tableau of a revision underlies the revised tableau. -/
theorem underlies_apply {request : Request ℚ} (hok : s.apply request = .ok revision) :
    (raw.edit request).Underlies revision.tableau ∧
      revision.initialRows = (raw.edit request).rows := by
  cases request with
  | objectiveChange costs => exact underlies_changeObjective h hinitial hok
  | rhsChange rhs => exact underlies_changeRhs hs h hinitial hok
  | newConstraints rows rhs costs => exact underlies_addConstraints h hinitial hok
  | newVariables columns costs names => exact underlies_addVariables hs h hinitial hok
  | coefficientChange rows => exact underlies_changeCoefficients hs h hinitial hok

end Snapshot

/-! ### One run -/

theorem Tableau.Underlies.trans {raw t t' : Tableau ℚ} (h : raw.Underlies t) (ht' : t'.IsCanonical)
    (hsame : t.SameProgram t') : raw.Underlies t' :=
  ⟨h.isValid, h.hasIdentity, ht', h.sameProgram.trans hsame⟩

theorem Tableau.Underlies.run {raw t : Tableau ℚ} (h : raw.Underlies t) {s : Solver}
    {initialRows : Rows ℚ} {solution : Solution ℚ}
    (hrun : (s.run t initialRows).outcome = .ok solution) : raw.Underlies solution.tableau := by
  obtain ⟨hcanonical, hsame⟩ := Solver.isCanonical_of_run h.isCanonical hrun
  exact h.trans hcanonical hsame

/-- An alternate of a solution is canonical and states the same program. -/
theorem Solver.isCanonical_of_mem_alternates {s : Solver} {t : Tableau ℚ} {initialRows : Rows ℚ}
    {solution : Solution ℚ} (hrun : (s.run t initialRows).outcome = .ok solution)
    (ht : solution.tableau.IsCanonical) {a : Alternate ℚ} (ha : a ∈ solution.alternates) :
    a.tableau.IsCanonical ∧ solution.tableau.SameProgram a.tableau := by
  obtain ⟨-, r, hend⟩ := run_eq_ok hrun
  rw [hend.tableau_eq] at ht ⊢
  rcases hend.alternates_eq with hnil | halternates
  · rw [hnil] at ha
    cases ha
  · obtain ⟨column, hcolumn⟩ := Solution.exists_of_mem_alternatesOf halternates ha
    obtain ⟨-, p, -, -, -, -, henter, -, -, -, happly⟩ := Solution.alternate?_cases hcolumn
    obtain ⟨-, -, ⟨h, -⟩ | ⟨p', h, -, -, hp, hpos, -⟩⟩ := Selection.ratioTest_cases henter
    · cases h
    · cases h
      have hne : p.element ≠ 0 := (isPositive_iff.1 hpos).ne'
      exact ⟨p.isCanonical_apply ht hp hne happly, p.sameProgram_apply ht.toIsValid hp hne happly⟩

/-! ### Whole sessions -/

namespace Session

variable {t raw : Tableau ℚ} {solution : Solution ℚ}

/-- Every solution of a session has been given by a run of a tableau that the raw tableau
underlies. -/
theorem exists_run (ht : t.IsCanonical) (hid : t.rows.HasIdentityAt t.structural)
    (h : Session t raw solution) : ∃ (s : Solver) (t' : Tableau ℚ), raw.Underlies t' ∧
      (s.run t' raw.rows).outcome = .ok solution := by
  induction h with
  | solved s h => exact ⟨s, t, ⟨ht.toIsValid, hid, ht, .refl t⟩, h⟩
  | updated before hsnapshot s request h ih =>
    obtain ⟨s', t', hunder, hrun⟩ := ih
    obtain ⟨-, r, hend⟩ := Solver.run_eq_ok hrun
    have hbefore := hunder.run hrun
    obtain ⟨-, htableau, hinitial, hcaptured⟩ := Solution.snapshot_eq_ok.1 hsnapshot
    obtain ⟨revision, hrevision, hresolve⟩ := Recorded.andThen_eq_ok.1 h
    rw [Snapshot.revise, Recorded.outcome_andEvent] at hrevision
    rw [← htableau] at hbefore
    obtain ⟨hafter, hrows⟩ :=
      Snapshot.underlies_apply hcaptured hbefore (hinitial.trans hend.initialRows_eq) hrevision
    exact ⟨s, revision.tableau, hafter, hrows ▸ hresolve⟩
  | resolved before ha s h ih =>
    obtain ⟨s', t', hunder, hrun⟩ := ih
    obtain ⟨-, r, hend⟩ := Solver.run_eq_ok hrun
    have hbefore := hunder.run hrun
    obtain ⟨hcanonical, hsame⟩ :=
      Solver.isCanonical_of_mem_alternates hrun hbefore.isCanonical ha
    exact ⟨s, _, hbefore.trans hcanonical hsame, hend.initialRows_eq ▸ h⟩

/-- The raw tableau of a session underlies its solutions. -/
theorem underlies (ht : t.IsCanonical) (hid : t.rows.HasIdentityAt t.structural)
    (h : Session t raw solution) :
    raw.Underlies solution.tableau ∧ solution.initialRows = raw.rows := by
  obtain ⟨s, t', hunder, hrun⟩ := h.exists_run ht hid
  obtain ⟨-, r, hend⟩ := Solver.run_eq_ok hrun
  exact ⟨hunder.run hrun, hend.initialRows_eq⟩

/-- The status of every solution of a session is right about the raw tableau. -/
theorem admits (ht : t.IsCanonical) (hid : t.rows.HasIdentityAt t.structural)
    (h : Session t raw solution) : raw.Admits solution.status := by
  obtain ⟨s, t', hunder, hrun⟩ := h.exists_run ht hid
  exact hunder.sameProgram.admits_iff.1 (Solver.admits_of_run hunder.isCanonical hrun)

/-- The objective of an optimal solution of a session is the largest cost of the raw tableau. -/
theorem optimal (ht : t.IsCanonical) (hid : t.rows.HasIdentityAt t.structural)
    (h : Session t raw solution) (hoptimal : solution.status = .optimal) :
    (∃ y, raw.IsFeasible y ∧ raw.valueAt y = solution.objective) ∧
      ∀ y, raw.IsFeasible y → raw.valueAt y ≤ solution.objective := by
  obtain ⟨s, t', hunder, hrun⟩ := h.exists_run ht hid
  have hsame := hunder.sameProgram
  obtain ⟨hfeasible, hvalue, hle⟩ := Solver.optimal_of_run hunder.isCanonical hrun hoptimal
  refine ⟨⟨_, hsame.isFeasible_iff.1 hfeasible, hsame.valueAt_eq _ ▸ hvalue⟩, fun y hy => ?_⟩
  rw [← hsame.valueAt_eq]
  exact hle y (hsame.isFeasible_iff.2 hy)

/-- At every solution of a session the initial coefficients are those of the replayed requests, and
the inverse of the basis, which is read off the tableau, turns them into the rows of the tableau,
the replayed right-hand sides into its right-hand sides, and the initial columns of the basic
variables into the identity. -/
theorem basisInverse_eq (ht : t.IsCanonical) (hid : t.rows.HasIdentityAt t.structural)
    (h : Session t raw solution) :
    solution.initialRows = raw.rows ∧ ∃ inverse columns,
      solution.tableau.rows.basisInverse = .ok inverse ∧
      inverse.mul solution.initialRows = .ok solution.tableau.rows ∧
      inverse.apply raw.rhs = .ok solution.tableau.rhs ∧
      solution.tableau.basicColumns = .ok columns ∧ columns.length = solution.tableau.height ∧
      ∀ i j, columns[i]? = some j → ∃ column, solution.initialRows.column j = .ok column ∧
        inverse.apply column = .ok (Rows.unit solution.tableau.height i) := by
  obtain ⟨hunder, hrows⟩ := underlies ht hid h
  have hcanonical := hunder.isCanonical
  obtain ⟨inverse, hinverse, -⟩ := hcanonical.exists_basisInverse_eq_ok
  rw [hrows]
  refine ⟨rfl, inverse, solution.tableau.basis.map solution.tableau.names.idxOf, hinverse,
    hunder.mul_rows hinverse, hunder.apply_rhs hinverse, hcanonical.basicColumns_eq,
    by rw [List.length_map, hcanonical.length_basis], fun i j hij => ?_⟩
  have hi : i < solution.tableau.height := by
    have := (List.getElem?_eq_some_iff.1 hij).1
    rwa [List.length_map, hcanonical.length_basis] at this
  rw [Tableau.getD_map_idxOf hcanonical.toIsValid hi, Option.some_inj] at hij
  subst hij
  exact hunder.exists_basic_column hinverse hi

/-- A session that solves two products on two resources and then limits the first product. -/
theorem basisInverse_eq_limitedProduct :
    Tableau.sharedResources.IsCanonical ∧
      Tableau.sharedResources.rows.HasIdentityAt Tableau.sharedResources.structural ∧
      ∃ raw solution, Session Tableau.sharedResources raw solution ∧
        raw = Tableau.sharedResources.edit (.newConstraints [[1, 0, 0, 0, 1]] [2] none) ∧
        solution.initialRows = raw.rows ∧ ∃ inverse columns,
          solution.tableau.rows.basisInverse = .ok inverse ∧
          inverse.mul solution.initialRows = .ok solution.tableau.rows ∧
          inverse.apply raw.rhs = .ok solution.tableau.rhs ∧
          solution.tableau.basicColumns = .ok columns ∧ columns.length = solution.tableau.height ∧
          ∀ i j, columns[i]? = some j → ∃ column, solution.initialRows.column j = .ok column ∧
            inverse.apply column = .ok (Rows.unit solution.tableau.height i) := by
  have hcanonical : Tableau.sharedResources.IsCanonical := by decide +kernel
  have hidentity : Tableau.sharedResources.rows.HasIdentityAt
      Tableau.sharedResources.structural := by
    decide +kernel
  have hchain : (·.status) <$> ((({} : Solver).solve .sharedResources).outcome >>= fun solution =>
      solution.snapshot >>= fun snapshot =>
        (({} : Solver).update snapshot (.newConstraints [[1, 0, 0, 0, 1]] [2] none)).outcome) =
      .ok .optimal := by
    decide +kernel
  obtain ⟨solution', h, -⟩ := Outcome.map_eq_ok.1 hchain
  obtain ⟨solution, hsolve, h⟩ := Outcome.bind_eq_ok.1 h
  obtain ⟨snapshot, hsnapshot, hupdate⟩ := Outcome.bind_eq_ok.1 h
  have hsession := (solved {} hsolve).updated hsnapshot {} _ hupdate
  exact ⟨hcanonical, hidentity, _, solution', hsession, rfl,
    basisInverse_eq hcanonical hidentity hsession⟩

end Session

end LinProg
