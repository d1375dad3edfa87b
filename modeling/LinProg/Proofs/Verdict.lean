import LinProg.Proofs.BasicPoint
import LinProg.Proofs.Run

/-!
# The verdicts of a run

In exact arithmetic the status with which a run ends is right about the program it was given. The
tableau at which the run halts carries a certificate for its status, and the run has changed neither
the program nor the form of the tableau.
-/

namespace LinProg

/-! ### What a status says -/

/-- Two statuses are of the same kind. -/
def Status.SameKind : Status → Status → Prop
  | .optimal, .optimal => True
  | .unbounded .., .unbounded .. => True
  | .infeasible .., .infeasible .. => True
  | _, _ => False

/-- The status is right about the feasible points of a tableau and their costs. -/
def Tableau.Admits (t : Tableau ℚ) : Status → Prop
  | .optimal => ∃ y, t.IsFeasible y ∧ ∀ y', t.IsFeasible y' → t.valueAt y' ≤ t.valueAt y
  | .unbounded column _ => (∃ y, t.IsFeasible y) ∧
      ∀ M N, ∃ y, t.IsFeasible y ∧ M < t.valueAt y ∧ N < y column
  | .infeasible .. => ∀ y, ¬ t.IsFeasible y

/-- No two kinds of status are right about one program. -/
theorem Tableau.Admits.sameKind {t : Tableau ℚ} {status status' : Status} (h : t.Admits status)
    (h' : t.Admits status') : status.SameKind status' := by
  have hbounded : ∀ {column name}, t.Admits .optimal → ¬ t.Admits (.unbounded column name) := by
    rintro column name ⟨y, -, hy⟩ ⟨-, hrays⟩
    obtain ⟨y', hy', hgt, -⟩ := hrays (t.valueAt y) 0
    exact absurd (hy y' hy') (not_le.2 hgt)
  cases status with
  | optimal =>
    cases status' with
    | optimal => trivial
    | unbounded column name => exact (hbounded h h').elim
    | infeasible row name => exact h.elim fun y hy => h' y hy.1
  | unbounded column name =>
    cases status' with
    | optimal => exact (hbounded h' h).elim
    | unbounded column' name' => trivial
    | infeasible row name' => exact h.1.elim fun y hy => h' y hy
  | infeasible row name =>
    cases status' with
    | optimal => exact h'.elim fun y hy => h y hy.1
    | unbounded column name' => exact h'.1.elim fun y hy => h y hy
    | infeasible row' name' => trivial

theorem Tableau.SameProgram.admits_iff {t t' : Tableau ℚ} (h : t.SameProgram t') {status : Status} :
    t'.Admits status ↔ t.Admits status := by
  cases status <;> simp only [Admits, h.isFeasible_iff, h.valueAt_eq]

/-- Two products that share two resources. -/
def Tableau.sharedResources : Tableau ℚ where
  rows := [[1, 1, 1, 0], [1, 3, 0, 1]]
  rhs := [4, 6]
  costs := [3, 2, 0, 0]
  names := ["x", "y", "s1", "s2"]
  basis := ["s1", "s2"]

/-- A product that is limited by nothing. -/
def Tableau.unlimitedProduct : Tableau ℚ where
  rows := [[-1, 1]]
  rhs := [1]
  costs := [1, 0]
  names := ["x", "s1"]
  basis := ["s1"]

/-- An order of two units of a product whose resource is enough for one. -/
def Tableau.excessiveOrder : Tableau ℚ where
  rows := [[1, 1, 0], [-1, 0, 1]]
  rhs := [1, -2]
  costs := [1, 0, 0]
  names := ["x", "s1", "s2"]
  basis := ["s1", "s2"]

namespace Solver

variable {s : Solver} {r : Run ℚ} {costs : ReducedCosts ℚ}

/-! ### The tableau at which a run halts -/

theorem mem_rhs_nonneg {t : Tableau ℚ} (ht : t.IsValid)
    (h : ∀ v ∈ t.rhs, Scalar.isNegative v = false) :
    ∀ i < t.height, 0 ≤ t.rhsAt i :=
  ht.forall_mem_rhs.1 fun v hv => isNegative_eq_false_iff.1 (h v hv)

/-- A tableau that is infeasible in a row has a negative right-hand side there. -/
theorem rhsAt_neg_of_classify {t : Tableau ℚ} (ht : t.IsValid) {reduced : List ℚ} {row : Nat}
    (h : Standing.classify t.rhs reduced = .infeasible row) : row < t.height ∧ t.rhsAt row < 0 := by
  obtain ⟨v, hv, hneg⟩ := Standing.negative_of_classify h
  refine ⟨ht.length_rhs ▸ (List.getElem?_eq_some_iff.1 hv).1, ?_⟩
  rw [Tableau.rhsAt, List.getD_eq_getElem?_getD, hv]
  exact isNegative_iff.1 hneg

/-- The ratio test that a run makes in order to improve: in a column of negative reduced cost, and
after a long streak in the first such column, with ties decided by the columns of the basic
variables. -/
structure Tests (s : Solver) (r : Run ℚ) (column : Nat) (rule : PivotRule)
    (precedes : Nat → Nat → Bool) : Prop where
  column_lt : column < r.tableau.width
  reduced_neg : r.tableau.reducedAt column < 0
  rule_ne : rule ≠ .infeasibility
  reduced_nonneg : s.degenerateStreakLimit ≤ r.streak → ∀ j < column, 0 ≤ r.tableau.reducedAt j
  precedes_eq : s.degenerateStreakLimit ≤ r.streak → precedes = fun row holder =>
    decide ((r.tableau.basis.map r.tableau.names.idxOf).getD row 0 <
      (r.tableau.basis.map r.tableau.names.idxOf).getD holder 0)

/-- At a tableau that can be improved, both rules test the ratios of a column of negative reduced
cost. -/
theorem improve_cases (hr : r.tableau.IsWellFormed)
    (hcosts : ReducedCosts.compute r.tableau = .ok costs)
    (hstanding : Standing.classify r.tableau.rhs costs.reduced = .improvable)
    {selection : Selection ℚ} (h : s.select r costs .improvable = .ok selection) :
    ∃ column rule precedes, s.Tests r column rule precedes ∧
      Selection.ratioTest r.tableau column rule precedes = .ok selection := by
  obtain ⟨-, v', hv', hneg'⟩ := Standing.classify_eq_improvable.1 hstanding
  have hsome : ∃ v ∈ costs.reduced, Scalar.isNegative v = true :=
    ⟨v', hv', isNegative_iff.2 (not_le.1 hneg')⟩
  have hcolumn : ∀ (column : Nat) (v : ℚ), costs.reduced[column]? = some v →
      Scalar.isNegative v = true → column < r.tableau.width ∧ r.tableau.reducedAt column < 0 := by
    intro column v hv hneg
    obtain ⟨hlt, hreduced⟩ := (ReducedCosts.getElem?_reduced_eq_some hr hcosts).1 hv
    exact ⟨hlt, hreduced ▸ isNegative_iff.1 hneg⟩
  rcases select_cases h with
    ⟨row, hrow, -⟩ | ⟨-, -, columns, hcolumns, hbland⟩ | ⟨-, hstreak, hdantzig⟩
  · cases hrow
  · obtain ⟨column, v, hv, hneg, hbefore, htest⟩ := Selection.bland_cases hsome hbland
    obtain ⟨hwidth, hreduced⟩ := hcolumn column v hv hneg
    obtain ⟨-, rfl⟩ := Tableau.basicColumns_eq_ok.1 hcolumns
    refine ⟨column, _, _, ⟨hwidth, hreduced, by simp, fun _ j hj => ?_, fun _ => rfl⟩, htest⟩
    exact isNegative_eq_false_iff.1
      (hbefore j hj _ (ReducedCosts.getElem?_reduced hr hcosts (hj.trans hwidth)))
  · obtain ⟨column, v, hv, hneg, htest⟩ :=
      Selection.dantzig_cases (separatesNegative_of_isFinite fun _ _ => rfl) hsome hdantzig
    obtain ⟨hwidth, hreduced⟩ := hcolumn column v hv hneg
    exact ⟨column, _, _, ⟨hwidth, hreduced, by simp, fun h => absurd h (not_le.2 hstreak),
      fun h => absurd h (not_le.2 hstreak)⟩, htest⟩

/-- A run that halts as optimal has no negative right-hand side and no negative reduced cost. -/
theorem halt_optimal (hr : r.tableau.IsWellFormed) (h : s.next r = .ok (.halt .optimal, costs)) :
    (∀ i < r.tableau.height, 0 ≤ r.tableau.rhsAt i) ∧
      ∀ j < r.tableau.width, 0 ≤ r.tableau.reducedAt j := by
  obtain ⟨hcosts, ⟨hoptimal, -⟩ | ⟨-, selection, -, hmove⟩⟩ := next_cases h
  · obtain ⟨hrhs, hreduced⟩ := Standing.classify_eq_optimal.1 hoptimal
    refine ⟨mem_rhs_nonneg hr.toIsValid hrhs, fun j hj => ?_⟩
    exact hreduced _ ((ReducedCosts.mem_reduced hr hcosts).2 ⟨j, hj, rfl⟩)
  · cases hmove

/-- A run that halts as infeasible has a row with a negative right-hand side and no negative
entry. -/
theorem halt_infeasible (hr : r.tableau.IsWellFormed) {row : Nat} {name : String}
    (h : s.next r = .ok (.halt (.infeasible row name), costs)) :
    row < r.tableau.height ∧ r.tableau.rhsAt row < 0 ∧
      ∀ j < r.tableau.width, 0 ≤ r.tableau.rows.entry row j := by
  obtain ⟨hcosts, -⟩ := next_cases h
  obtain ⟨hstanding, hrepair⟩ := repair_of_halt h
  obtain ⟨entries, hentries, ⟨-, hratios⟩ | ⟨p, h, -⟩⟩ := Selection.repair_cases hrepair
  · obtain ⟨hlt, hneg⟩ := rhsAt_neg_of_classify hr.toIsValid hstanding
    refine ⟨hlt, hneg, fun j hj => ?_⟩
    have hmem := List.mem_of_getElem? hentries
    have hlen : entries.length = costs.reduced.length := by
      rw [hr.length_row entries hmem, ReducedCosts.length_reduced hr hcosts]
    have hj' : j < entries.length := by rwa [hr.length_row entries hmem]
    rw [Rows.entry_of_getElem? hentries, List.getD_eq_getElem _ _ hj']
    exact Selection.nonneg_of_repairRatio hlen.le hratios _ (List.getElem_mem hj')
  · cases h

/-- A run that halts as unbounded has no negative right-hand side, and a column of negative reduced
cost without a positive entry. -/
theorem halt_unbounded (hr : r.tableau.IsWellFormed) {column : Nat} {name : String}
    (h : s.next r = .ok (.halt (.unbounded column name), costs)) :
    r.tableau.names[column]? = some name ∧ (∀ i < r.tableau.height, 0 ≤ r.tableau.rhsAt i) ∧
      r.tableau.reducedAt column < 0 ∧
      ∀ i < r.tableau.height, r.tableau.rows.entry i column ≤ 0 := by
  obtain ⟨hcosts, ⟨-, h'⟩ | ⟨-, selection, -, hmove⟩⟩ := next_cases h
  · cases h'
  obtain ⟨hstanding, hselection⟩ := improve_of_halt h
  obtain ⟨column', rule, precedes, htests, htest⟩ := improve_cases hr hcosts hstanding hselection
  obtain ⟨entries, hentries, ⟨h', hratios⟩ | ⟨p, h', -⟩⟩ := Selection.ratioTest_cases htest
  · cases h'
    cases hmove with
    | unbounded hname =>
      obtain ⟨hrhs, -⟩ := Standing.classify_eq_improvable.1 hstanding
      obtain ⟨-, rfl⟩ := Rows.column_eq_ok.1 hentries
      refine ⟨hname, mem_rhs_nonneg hr.toIsValid hrhs, htests.reduced_neg, fun i hi => ?_⟩
      obtain ⟨row, hrow, -⟩ := hr.hasShape.exists_row hi
      have hlen : (r.tableau.rows.map (·.getD column 0)).length ≤ r.tableau.rhs.length := by
        rw [List.length_map, hr.length_rhs]
        exact le_rfl
      rw [Rows.entry_of_getElem? hrow]
      exact Selection.nonpos_of_growthRatio hlen
        (fun v hv => isNegative_eq_false_iff.1 (hrhs v hv)) hratios _
        (List.mem_map_of_mem (List.mem_of_getElem? hrow))
  · cases h'

/-! ### The solution of a run -/

section

variable {t : Tableau ℚ} {initialRows : Rows ℚ} {solution : Solution ℚ}

/-- The last tableau of a run is canonical and states the program that the run began with. -/
theorem isCanonical_of_run (ht : t.IsCanonical) (h : (s.run t initialRows).outcome = .ok solution) :
    solution.tableau.IsCanonical ∧ t.SameProgram solution.tableau := by
  obtain ⟨-, r, hend⟩ := run_eq_ok h
  rw [hend.tableau_eq]
  exact isCanonical_of_reflTransGen hend.reaches ht

/-- The objective of a solution is the one of its tableau. -/
theorem objective_of_run (ht : t.IsCanonical) (h : (s.run t initialRows).outcome = .ok solution) :
    solution.objective = solution.tableau.basicObjective := by
  obtain ⟨hcanonical, -⟩ := isCanonical_of_run ht h
  obtain ⟨-, r, hend⟩ := run_eq_ok h
  rw [hend.tableau_eq] at hcanonical ⊢
  exact ReducedCosts.objective_eq hcanonical.toIsWellFormed (next_cases hend.next_eq).1

/-- An optimal solution has no negative right-hand side and no negative reduced cost. -/
theorem nonneg_of_run (ht : t.IsCanonical) (h : (s.run t initialRows).outcome = .ok solution)
    (hoptimal : solution.status = .optimal) :
    (∀ i < solution.tableau.height, 0 ≤ solution.tableau.rhsAt i) ∧
      ∀ j < solution.tableau.width, 0 ≤ solution.tableau.reducedAt j := by
  obtain ⟨hcanonical, -⟩ := isCanonical_of_run ht h
  obtain ⟨-, r, hend⟩ := run_eq_ok h
  have hnext := hend.next_eq
  rw [hoptimal] at hnext
  rw [hend.tableau_eq] at hcanonical ⊢
  exact halt_optimal hcanonical.toIsWellFormed hnext

/-- The basic solution of a run that ends as optimal is feasible and costs as much as any feasible
point. -/
theorem optimal_of_run (ht : t.IsCanonical) (h : (s.run t initialRows).outcome = .ok solution)
    (hoptimal : solution.status = .optimal) :
    t.IsFeasible solution.tableau.basicPoint ∧
      t.valueAt solution.tableau.basicPoint = solution.objective ∧
      ∀ y, t.IsFeasible y → t.valueAt y ≤ solution.objective := by
  obtain ⟨hcanonical, hsame⟩ := isCanonical_of_run ht h
  obtain ⟨hrhs, hreduced⟩ := nonneg_of_run ht h hoptimal
  rw [objective_of_run ht h]
  refine ⟨?_, ?_, fun y hy => ?_⟩
  · exact hsame.isFeasible_iff.1 (hcanonical.isFeasible_basicPoint hrhs)
  · rw [← hsame.valueAt_eq, hcanonical.valueAt_basicPoint]
  · rw [← hsame.valueAt_eq]
    exact (hsame.isFeasible_iff.2 hy).valueAt_le hreduced

/-- The status with which a run ends is right about the program that it began with. -/
theorem admits_of_run (ht : t.IsCanonical) (h : (s.run t initialRows).outcome = .ok solution) :
    t.Admits solution.status := by
  obtain ⟨hcanonical, hsame⟩ := isCanonical_of_run ht h
  obtain ⟨-, r, hend⟩ := run_eq_ok h
  have hnext := hend.next_eq
  rw [hend.tableau_eq] at hcanonical hsame
  cases hstatus : solution.status with
  | optimal =>
    obtain ⟨hfeasible, hvalue, hle⟩ := optimal_of_run ht h hstatus
    exact ⟨_, hfeasible, fun y hy => hvalue ▸ hle y hy⟩
  | infeasible row name =>
    rw [hstatus] at hnext
    obtain ⟨hrow, hrhs, hentries⟩ := halt_infeasible hcanonical.toIsWellFormed hnext
    intro y hy
    exact Tableau.not_isFeasible_of_row hrow hrhs hentries y (hsame.isFeasible_iff.2 hy)
  | unbounded column name =>
    rw [hstatus] at hnext
    obtain ⟨hname, hrhs, hreduced, hentries⟩ := halt_unbounded hcanonical.toIsWellFormed hnext
    have hcolumn : column < r.tableau.width := (List.getElem?_eq_some_iff.1 hname).1
    refine ⟨⟨_, hsame.isFeasible_iff.1 (hcanonical.isFeasible_basicPoint hrhs)⟩, fun M N => ?_⟩
    obtain ⟨y, hy, hvalue, hgrowth⟩ :=
      hcanonical.exists_feasible_gt hrhs hcolumn hreduced hentries M N
    rw [hsame.valueAt_eq] at hvalue
    exact ⟨y, hsame.isFeasible_iff.1 hy, hvalue, hgrowth⟩

/-- A run that begins without negative right-hand sides does not end as infeasible. -/
theorem status_of_run (ht : t.IsCanonical) (hrhs : ∀ i < t.height, 0 ≤ t.rhsAt i)
    (h : (s.run t initialRows).outcome = .ok solution) :
    solution.status = .optimal ∨ ∃ column name, solution.status = .unbounded column name := by
  have hadmits := admits_of_run ht h
  cases hstatus : solution.status with
  | optimal => exact .inl rfl
  | unbounded column name => exact .inr ⟨column, name, rfl⟩
  | infeasible row name =>
    rw [hstatus] at hadmits
    exact (hadmits _ (ht.isFeasible_basicPoint hrhs)).elim

/-! ### The verdicts -/

/-- If a tableau is solved as optimal, the values that are reported are a feasible point of the
tableau, its cost is the reported objective, and no feasible point costs more. -/
theorem solve_optimal (s : Solver) (ht : t.IsCanonical) (h : (s.solve t).outcome = .ok solution)
    (hoptimal : solution.status = .optimal) :
    ∃ y : ℕ → ℚ, solution.tableau.values = .ok (t.names.zipIdx.map fun (name, j) => (name, y j)) ∧
      t.IsFeasible y ∧ t.valueAt y = solution.objective ∧
      ∀ y', t.IsFeasible y' → t.valueAt y' ≤ solution.objective := by
  obtain ⟨hcanonical, hsame⟩ := isCanonical_of_run ht h
  refine ⟨solution.tableau.basicPoint, ?_, optimal_of_run ht h hoptimal⟩
  rw [hcanonical.values_eq, hsame.names_eq]

/-- Two products that share two resources are made at a finite profit. -/
theorem solve_optimal_sharedResources :
    Tableau.sharedResources.IsCanonical ∧
      ∃ solution, (({} : Solver).solve .sharedResources).outcome = .ok solution ∧
        solution.status = .optimal ∧ ∃ y : ℕ → ℚ,
          solution.tableau.values =
            .ok (Tableau.sharedResources.names.zipIdx.map fun (name, j) => (name, y j)) ∧
          Tableau.sharedResources.IsFeasible y ∧
          Tableau.sharedResources.valueAt y = solution.objective ∧
          ∀ y', Tableau.sharedResources.IsFeasible y' →
            Tableau.sharedResources.valueAt y' ≤ solution.objective := by
  have hcanonical : Tableau.sharedResources.IsCanonical := by decide +kernel
  have hstatus : (·.status) <$> (({} : Solver).solve .sharedResources).outcome = .ok .optimal := by
    decide +kernel
  obtain ⟨solution, h, hoptimal⟩ := Outcome.map_eq_ok.1 hstatus
  exact ⟨hcanonical, solution, h, hoptimal, solve_optimal {} hcanonical h hoptimal⟩

/-- If a tableau is solved as infeasible, it has no feasible point. If it is solved as unbounded, it
has one, and beyond any two bounds there is a feasible point whose cost exceeds the first and whose
value of the named variable exceeds the second. Two solvers never give one tableau statuses of
different kinds. -/
theorem solve_verdict (s : Solver) (ht : t.IsCanonical) (h : (s.solve t).outcome = .ok solution) :
    (∀ row name, solution.status = .infeasible row name → ∀ y, ¬ t.IsFeasible y) ∧
      (∀ column name, solution.status = .unbounded column name →
        t.names[column]? = some name ∧ (∃ y, t.IsFeasible y) ∧
          ∀ M N, ∃ y, t.IsFeasible y ∧ M < t.valueAt y ∧ N < y column) ∧
      ∀ (s' : Solver) (solution' : Solution ℚ), (s'.solve t).outcome = .ok solution' →
        solution.status.SameKind solution'.status := by
  have hadmits := admits_of_run ht h
  refine ⟨fun row name hstatus => ?_, fun column name hstatus => ⟨?_, ?_⟩,
    fun s' solution' h' => ?_⟩
  · rw [hstatus] at hadmits
    exact hadmits
  · exact (names_of_run h).2.2 _ _ hstatus
  · rw [hstatus] at hadmits
    exact hadmits
  · exact hadmits.sameKind (admits_of_run ht h')

/-- A product that nothing limits can be made without end, and an order beyond the resource cannot
be filled, with any pivot rule. -/
theorem solve_verdict_unlimited_excessive :
    (Tableau.unlimitedProduct.IsCanonical ∧
      ∃ solution, (({} : Solver).solve .unlimitedProduct).outcome = .ok solution ∧
        solution.status = .unbounded 0 "x" ∧
        (∀ M N, ∃ y, Tableau.unlimitedProduct.IsFeasible y ∧
          M < Tableau.unlimitedProduct.valueAt y ∧ N < y 0) ∧
        ∀ (s' : Solver) (solution' : Solution ℚ),
          (s'.solve .unlimitedProduct).outcome = .ok solution' →
            (Status.unbounded 0 "x").SameKind solution'.status) ∧
    Tableau.excessiveOrder.IsCanonical ∧
      ∃ solution, (({} : Solver).solve .excessiveOrder).outcome = .ok solution ∧
        solution.status = .infeasible 0 "s1" ∧ (∀ y, ¬ Tableau.excessiveOrder.IsFeasible y) ∧
        ∀ (s' : Solver) (solution' : Solution ℚ),
          (s'.solve .excessiveOrder).outcome = .ok solution' →
            (Status.infeasible 0 "s1").SameKind solution'.status := by
  have hcanonical : Tableau.unlimitedProduct.IsCanonical := by decide +kernel
  have hcanonical' : Tableau.excessiveOrder.IsCanonical := by decide +kernel
  have hstatus : (·.status) <$> (({} : Solver).solve .unlimitedProduct).outcome =
      .ok (.unbounded 0 "x") := by
    decide +kernel
  have hstatus' : (·.status) <$> (({} : Solver).solve .excessiveOrder).outcome =
      .ok (.infeasible 0 "s1") := by
    decide +kernel
  refine ⟨⟨hcanonical, ?_⟩, hcanonical', ?_⟩
  · obtain ⟨solution, h, hunbounded⟩ := Outcome.map_eq_ok.1 hstatus
    obtain ⟨-, hrays, hkind⟩ := solve_verdict {} hcanonical h
    rw [hunbounded] at hkind
    exact ⟨solution, h, hunbounded, (hrays 0 "x" hunbounded).2.2, hkind⟩
  · obtain ⟨solution, h, hinfeasible⟩ := Outcome.map_eq_ok.1 hstatus'
    obtain ⟨hempty, -, hkind⟩ := solve_verdict {} hcanonical' h
    rw [hinfeasible] at hkind
    exact ⟨solution, h, hinfeasible, hempty 0 "s1" hinfeasible, hkind⟩

end

end Solver

end LinProg
