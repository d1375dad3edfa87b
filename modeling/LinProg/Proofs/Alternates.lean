import LinProg.Proofs.Improvement
import LinProg.Proofs.Limit
import LinProg.Proofs.Vertex

/-!
# Other optima

Next to an optimal tableau, the other optima are found by a ratio test in each column outside the
basis that has no reduced cost. The pivot of such a test keeps the objective and all reduced costs,
and no right-hand side becomes negative, so it leads to a tableau that is optimal too. If no such
column limits anything, no other vertex is optimal. Another basis is not always another point:
unless a basic variable is zero, the entering variable takes a positive value.
-/

namespace LinProg

open Scalar

/-- Two products of the same profit that share two resources. -/
def Tableau.equalProfits : Tableau ℚ where
  rows := [[1, 1, 1, 0], [1, 3, 0, 1]]
  rhs := [4, 6]
  costs := [1, 1, 0, 0]
  names := ["x", "y", "s1", "s2"]
  basis := ["s1", "s2"]

/-- A product whose resource can be bought at the price that the product brings. -/
def Tableau.boughtResource : Tableau ℚ where
  rows := [[1, -1, 1]]
  rhs := [1]
  costs := [1, -1, 0]
  names := ["x", "y", "s1"]
  basis := ["s1"]

/-! ### The pivot -/

namespace Pivot

/-- The pivot enters a column outside the basis that has no reduced cost, in the row that limits its
variable most. -/
structure Alternates (p : Pivot ℚ) (t : Tableau ℚ) : Prop where
  tightest : p.IsTightest t
  reduced_eq : t.reducedAt p.column = 0
  basicColumn_ne : ∀ i < t.height, t.basicColumn i ≠ p.column

variable {p : Pivot ℚ} {t t' : Tableau ℚ}

namespace Alternates

variable (h : p.Alternates t) (ht : t.IsCanonical) (happly : p.apply t = .ok t')

include h ht happly

theorem isCanonical : t'.IsCanonical ∧ t.SameProgram t' := by
  have hne := h.tightest.element_pos.ne'
  exact ⟨p.isCanonical_apply ht h.tightest.readsOff hne happly,
    p.sameProgram_apply ht.toIsValid h.tightest.readsOff hne happly⟩

/-- All reduced costs stay. -/
theorem reducedAt_eq {j : Nat} (hj : j < t.width) : t'.reducedAt j = t.reducedAt j := by
  rw [reducedAt_apply ht h.tightest.readsOff h.tightest.element_pos.ne' happly hj, h.reduced_eq,
    zero_mul, sub_zero]

/-- The objective stays. -/
theorem basicObjective_eq : t'.basicObjective = t.basicObjective := by
  rw [basicObjective_apply ht h.tightest.readsOff h.tightest.element_pos.ne' happly, h.reduced_eq,
    zero_mul, sub_zero]

/-- The reduced costs and the objective that are computed after the pivot are those from before. -/
theorem compute_eq {costs : ReducedCosts ℚ} (hcosts : ReducedCosts.compute t = .ok costs) :
    ∃ costs', ReducedCosts.compute t' = .ok costs' ∧ costs'.reduced = costs.reduced ∧
      costs'.objective = costs.objective := by
  obtain ⟨ht', hsame⟩ := h.isCanonical ht happly
  obtain ⟨costs', hcosts', hlen⟩ := ReducedCosts.exists_compute_eq_ok ht'.toIsWellFormed
  refine ⟨costs', hcosts', List.ext_getElem? fun j => ?_, ?_⟩
  · rcases lt_or_ge j t.width with hj | hj
    · have hj' : j < t'.width := hsame.width_eq.symm ▸ hj
      rw [ReducedCosts.getElem?_reduced ht'.toIsWellFormed hcosts' hj',
        ReducedCosts.getElem?_reduced ht.toIsWellFormed hcosts hj, h.reducedAt_eq ht happly hj]
    · have hlen' := ReducedCosts.length_reduced ht.toIsWellFormed hcosts
      rw [List.getElem?_eq_none (hlen'.trans_le hj),
        List.getElem?_eq_none ((hlen.trans hsame.width_eq).trans_le hj)]
  · rw [ReducedCosts.objective_eq ht'.toIsWellFormed hcosts',
      ReducedCosts.objective_eq ht.toIsWellFormed hcosts, h.basicObjective_eq ht happly]

/-- If no right-hand side is zero, the entering variable takes a positive value. -/
theorem basicPoint_pos (hrhs : ∀ i < t.height, 0 < t.rhsAt i) :
    t.basicPoint p.column = 0 ∧ 0 < t'.basicPoint p.column := by
  obtain ⟨ht', hsame⟩ := h.isCanonical ht happly
  have hrow := h.tightest.readsOff.row_lt
  have hcolumn : t'.basicColumn p.row = p.column := by
    have hex := exchanges_of_apply ht.toIsValid h.tightest.readsOff happly
    rw [hex.basicColumn_eq ht.toIsWellFormed h.tightest.readsOff, if_pos rfl]
  refine ⟨Tableau.atBasis_of_ne h.basicColumn_ne, ?_⟩
  rw [← hcolumn, Tableau.basicPoint, ht'.atBasis_basicColumn _ (hsame.height_eq.symm ▸ hrow),
    rhsAt_apply ht.toIsValid h.tightest.readsOff happly hrow, if_pos rfl]
  exact div_pos (hrhs _ hrow) h.tightest.element_pos

end Alternates

end Pivot

/-! ### The search for other optima -/

namespace Solution

variable {t : Tableau ℚ} {costs : ReducedCosts ℚ}

/-- A column belongs to no basic variable exactly if its name is not in the basis. -/
theorem isBasic_eq_false_iff (ht : t.IsWellFormed) {j : Nat} {name : String}
    (hname : t.names[j]? = some name) :
    t.isBasic name = false ↔ ∀ i < t.height, t.basicColumn i ≠ j := by
  have hj : j < t.width := (List.getElem?_eq_some_iff.1 hname).1
  rw [Tableau.isBasic, List.contains_eq_mem, decide_eq_false_iff_not]
  constructor
  · intro hnot i hi heq
    rw [ht.basicColumn_eq_iff hi hj, hname] at heq
    exact hnot (List.mem_of_getElem? heq)
  · intro hne hmem
    obtain ⟨i, hi⟩ := List.mem_iff_getElem?.1 hmem
    have hlt : i < t.height := ht.length_basis ▸ (List.getElem?_eq_some_iff.1 hi).1
    exact hne i hlt ((ht.basicColumn_eq_iff hlt hj).2 (hi.trans hname.symm))

/-- What is found in a column is one pivot away. -/
theorem alternates_of_alternate? (ht : t.IsCanonical) (hrhs : ∀ i < t.height, 0 ≤ t.rhsAt i)
    (hcosts : ReducedCosts.compute t = .ok costs) {column : Nat} {a : Alternate ℚ}
    (h : alternate? t costs column = .ok (some a)) :
    ∃ p : Pivot ℚ, p.Alternates t ∧ p.apply t = .ok a.tableau ∧
      t.names[p.column]? = some a.entering ∧ t.basis[p.row]? = some a.leaving ∧
      a.entering ∉ t.basis := by
  obtain ⟨cost, p, step, hbasic, hcost, hzero, henter, hstep, hentering, hleaving, happly⟩ :=
    alternate?_cases h
  obtain ⟨rfl, htightest⟩ := Selection.isTightest_of_ratioTest ht.toIsValid hrhs henter
  obtain ⟨-, hreduced⟩ := (ReducedCosts.getElem?_reduced_eq_some ht.toIsWellFormed hcosts).1 hcost
  obtain ⟨entering, leaving, hname, hrow, rfl⟩ := Pivot.step_eq_ok hstep
  obtain rfl : entering = a.entering := hentering
  obtain rfl : leaving = a.leaving := hleaving
  have hne := (isBasic_eq_false_iff ht.toIsWellFormed hname).1 hbasic
  refine ⟨p, ⟨htightest, hreduced.trans (isZero_iff.1 hzero), hne⟩, happly, hname, hrow, ?_⟩
  simpa [Tableau.isBasic] using hbasic

/-- If nothing is found, the columns outside the basis without reduced cost have no positive
entry. -/
theorem entry_nonpos_of_alternatesOf_nil (ht : t.IsCanonical) (hrhs : ∀ i < t.height, 0 ≤ t.rhsAt i)
    (hcosts : ReducedCosts.compute t = .ok costs) (h : alternatesOf t costs = .ok []) {j : Nat}
    (hj : j < t.width) (hne : ∀ i < t.height, t.basicColumn i ≠ j) (hreduced : t.reducedAt j = 0) :
    ∀ i < t.height, t.rows.entry i j ≤ 0 := by
  obtain ⟨name, hname⟩ : ∃ name, t.names[j]? = some name := ⟨_, List.getElem?_eq_getElem hj⟩
  have hbasic := (isBasic_eq_false_iff ht.toIsWellFormed hname).2 hne
  have hcost := ReducedCosts.getElem?_reduced ht.toIsWellFormed hcosts hj
  obtain ⟨entries, hentries, hnone⟩ :=
    alternate?_eq_none (alternate?_of_alternatesOf_nil h hj) hname hbasic hcost
      (isZero_iff.2 hreduced)
  have hnonpos : ∀ v ∈ entries, v ≤ 0 := by
    rcases hnone with hnone | ⟨selection, henter, hpivot⟩
    · intro v hv
      have hnot := hnone v hv
      rw [← Bool.not_eq_true, isPositive_iff] at hnot
      exact not_lt.1 hnot
    · obtain ⟨entries', hentries', ⟨-, hratios⟩ | ⟨p, hp, -⟩⟩ := Selection.ratioTest_cases henter
      · rw [hentries, Except.ok.injEq] at hentries'
        subst hentries'
        have hlen : entries.length ≤ t.rhs.length := by
          rw [(Rows.column_eq_ok.1 hentries).2, List.length_map, ht.length_rhs]
          exact le_rfl
        exact Selection.nonpos_of_growthRatio hlen (ht.forall_mem_rhs.2 hrhs) hratios
      · exact absurd hp (hpivot p)
  intro i hi
  obtain ⟨row, hrow, -⟩ := ht.hasShape.exists_row hi
  rw [Rows.entry_of_getElem? hrow]
  refine hnonpos _ ?_
  rw [(Rows.column_eq_ok.1 hentries).2]
  exact List.mem_map_of_mem (List.mem_of_getElem? hrow)

/-- If no basic variable is read as zero, no right-hand side is zero. -/
theorem rhsAt_ne_zero_of_degenerateBasis_nil (ht : t.IsValid) (h : degenerateBasis t = []) {i : Nat}
    (hi : i < t.height) : t.rhsAt i ≠ 0 := by
  intro hzero
  have hbasis : i < t.basis.length := ht.length_basis.symm ▸ hi
  have hrhs : i < t.rhs.length := ht.length_rhs.symm ▸ hi
  have hpair : (t.basis[i], t.rhs[i]) ∈ t.basis.zip t.rhs := by
    refine List.mem_of_getElem? (i := i) ?_
    rw [List.getElem?_zip_eq_some]
    exact ⟨List.getElem?_eq_getElem hbasis, List.getElem?_eq_getElem hrhs⟩
  rw [degenerateBasis, List.map_eq_nil_iff, List.filter_eq_nil_iff] at h
  refine h _ hpair (isZero_iff.2 ?_)
  rwa [Tableau.rhsAt, List.getD_eq_getElem _ _ hrhs] at hzero

end Solution

/-! ### The other optima of a solution -/

/-- The tableau is optimal too, and it is one exchange of basic variables away from the tableau of
the solution. -/
structure Alternate.IsNextTo (a : Alternate ℚ) (solution : Solution ℚ) : Prop where
  isCanonical : a.tableau.IsCanonical
  sameProgram : solution.tableau.SameProgram a.tableau
  isFeasible_iff : ∀ y, a.tableau.IsFeasible y ↔ solution.tableau.IsFeasible y
  rhs_nonneg : ∀ v ∈ a.tableau.rhs, 0 ≤ v
  entering_mem : a.entering ∈ solution.tableau.names ∧ a.entering ∉ solution.tableau.basis
  basis_eq : ∃ row, solution.tableau.basis[row]? = some a.leaving ∧
    a.tableau.basis = solution.tableau.basis.set row a.entering
  compute_eq : ∃ costs, ReducedCosts.compute a.tableau = .ok costs ∧
    costs.reduced = solution.reducedCosts.reduced ∧ costs.objective = solution.objective
  exists_run : ∀ (s : Solver) (initialRows : Rows ℚ), ∃ again,
    (s.run a.tableau initialRows).outcome = .ok again ∧ again.status = .optimal ∧
      again.steps = [] ∧ again.tableau = a.tableau ∧ again.objective = solution.objective

namespace Solver

variable {s : Solver} {t : Tableau ℚ} {initialRows : Rows ℚ} {solution : Solution ℚ}

/-- Each of the other optima is one pivot away. -/
theorem exists_pivot_of_mem_alternates (ht : t.IsCanonical)
    (h : (s.run t initialRows).outcome = .ok solution) (hoptimal : solution.status = .optimal)
    {a : Alternate ℚ} (ha : a ∈ solution.alternates) :
    ∃ p : Pivot ℚ, p.Alternates solution.tableau ∧ p.apply solution.tableau = .ok a.tableau ∧
      solution.tableau.names[p.column]? = some a.entering ∧
      solution.tableau.basis[p.row]? = some a.leaving ∧ a.entering ∉ solution.tableau.basis := by
  obtain ⟨hcanonical, -⟩ := isCanonical_of_run ht h
  obtain ⟨hrhs, -⟩ := nonneg_of_run ht h hoptimal
  obtain ⟨-, hcosts, halternates, -⟩ := reports_of_run h hoptimal
  obtain ⟨column, hcolumn⟩ := Solution.exists_of_mem_alternatesOf halternates ha
  exact Solution.alternates_of_alternate? hcanonical hrhs hcosts hcolumn

theorem isNextTo_of_mem_alternates (ht : t.IsCanonical)
    (h : (s.run t initialRows).outcome = .ok solution) (hoptimal : solution.status = .optimal)
    {a : Alternate ℚ} (ha : a ∈ solution.alternates) : a.IsNextTo solution := by
  obtain ⟨hcanonical, -⟩ := isCanonical_of_run ht h
  obtain ⟨hrhs, hreduced⟩ := nonneg_of_run ht h hoptimal
  obtain ⟨-, hcosts, -, -⟩ := reports_of_run h hoptimal
  obtain ⟨p, hp, happly, hname, hrow, hnot⟩ := exists_pivot_of_mem_alternates ht h hoptimal ha
  obtain ⟨hcanonical', hsame⟩ := hp.isCanonical hcanonical happly
  have hrhs' : ∀ v ∈ a.tableau.rhs, 0 ≤ v := by
    rw [hcanonical'.forall_mem_rhs, hsame.height_eq]
    exact hp.tightest.rhsAt_nonneg hcanonical.toIsValid happly hrhs
  have hreduced' : ∀ j < a.tableau.width, 0 ≤ a.tableau.reducedAt j := by
    intro j hj
    rw [hsame.width_eq] at hj
    rw [hp.reducedAt_eq hcanonical happly hj]
    exact hreduced j hj
  have hobjective : a.tableau.basicObjective = solution.objective := by
    rw [hp.basicObjective_eq hcanonical happly, objective_of_run ht h]
  obtain ⟨name, hentering, hbasis⟩ :=
    (Pivot.exchanges_of_apply hcanonical.toIsValid hp.tightest.readsOff happly).basis_eq
  rw [hname, Option.some_inj] at hentering
  subst hentering
  refine ⟨hcanonical', hsame, fun y => hsame.isFeasible_iff, hrhs',
    ⟨List.mem_of_getElem? hname, hnot⟩, ⟨p.row, hrow, hbasis⟩,
    hp.compute_eq hcanonical happly hcosts, fun s' initialRows' => ?_⟩
  rw [← hobjective]
  exact s'.exists_run_of_nonneg hcanonical' hrhs' hreduced' initialRows'

/-- If no other optimum is reported, every optimal vertex is the basic point of the solution. -/
theorem eq_basicPoint_of_alternates_nil (ht : t.IsCanonical)
    (h : (s.run t initialRows).outcome = .ok solution) (hoptimal : solution.status = .optimal)
    (hnil : solution.alternates = []) {y : ℕ → ℚ} (hy : t.IsVertex y)
    (hvalue : t.valueAt y = solution.objective) {j : Nat} (hj : j < t.width) :
    y j = solution.tableau.basicPoint j := by
  obtain ⟨hcanonical, hsame⟩ := isCanonical_of_run ht h
  obtain ⟨hrhs, hreduced⟩ := nonneg_of_run ht h hoptimal
  obtain ⟨-, hcosts, halternates, -⟩ := reports_of_run h hoptimal
  rw [hnil] at halternates
  rw [← hsame.valueAt_eq, objective_of_run ht h] at hvalue
  refine hcanonical.eq_basicPoint_of_isVertex hrhs hreduced (fun k hk hne hfree => ?_)
    (hsame.isVertex hy) hvalue (hsame.width_eq.symm ▸ hj)
  exact Solution.entry_nonpos_of_alternatesOf_nil hcanonical hrhs hcosts halternates hk hne hfree

/-- If no basic variable is reported as zero, the other optima have other values. -/
theorem values_ne_of_degenerate_nil (ht : t.IsCanonical)
    (h : (s.run t initialRows).outcome = .ok solution) (hoptimal : solution.status = .optimal)
    (hnil : solution.degenerate = []) {a : Alternate ℚ} (ha : a ∈ solution.alternates) :
    a.tableau.values ≠ solution.tableau.values := by
  obtain ⟨hcanonical, -⟩ := isCanonical_of_run ht h
  obtain ⟨hrhs, -⟩ := nonneg_of_run ht h hoptimal
  obtain ⟨-, -, -, hdegenerate⟩ := reports_of_run h hoptimal
  rw [hnil] at hdegenerate
  obtain ⟨p, hp, happly, hname, -, -⟩ := exists_pivot_of_mem_alternates ht h hoptimal ha
  obtain ⟨hcanonical', hsame⟩ := hp.isCanonical hcanonical happly
  have hpos : ∀ i < solution.tableau.height, 0 < solution.tableau.rhsAt i := fun i hi =>
    (hrhs i hi).lt_of_ne
      (Solution.rhsAt_ne_zero_of_degenerateBasis_nil hcanonical.toIsValid hdegenerate hi).symm
  obtain ⟨hbefore, hafter⟩ := hp.basicPoint_pos hcanonical happly hpos
  intro heq
  rw [hcanonical'.values_eq, hcanonical.values_eq, hsame.names_eq, Except.ok.injEq] at heq
  have hcolumn := congrArg (·[p.column]?) heq
  simp only [List.getElem?_map, List.getElem?_zipIdx, hname, Option.map_some, zero_add,
    Option.some_inj, Prod.mk.injEq, true_and] at hcolumn
  rw [hbefore] at hcolumn
  exact hafter.ne' hcolumn

/-- The other optima of an optimal solution are right and complete. Each of them is canonical,
states the same program, exchanges one basic variable, keeps the objective and the reduced costs,
and is solved without a pivot. The reported point is an optimal vertex; if no other optimum is
reported, it is the only one, and if no basic variable is zero, every other optimum is another
point. The reported tableau is the one that the run has reached. -/
theorem run_alternates (ht : t.IsCanonical) (h : (s.run t initialRows).outcome = .ok solution)
    (hoptimal : solution.status = .optimal) :
    solution.tableau = (s.walk s.maxIterations (.start t)).run.tableau ∧
      t.SameProgram solution.tableau ∧
      (∀ a ∈ solution.alternates, a.IsNextTo solution) ∧
      (∃ x : ℕ → ℚ,
        solution.tableau.values = .ok (t.names.zipIdx.map fun (name, j) => (name, x j)) ∧
        t.IsVertex x ∧ t.valueAt x = solution.objective ∧
        (∀ y, t.IsFeasible y → t.valueAt y ≤ solution.objective) ∧
        (solution.alternates = [] → ∀ y, t.IsVertex y → t.valueAt y = solution.objective →
          ∀ j < t.width, y j = x j)) ∧
      (solution.degenerate = [] →
        ∀ a ∈ solution.alternates, a.tableau.values ≠ solution.tableau.values) := by
  obtain ⟨hcanonical, hsame⟩ := isCanonical_of_run ht h
  obtain ⟨hrhs, -⟩ := nonneg_of_run ht h hoptimal
  obtain ⟨-, hvalue, hle⟩ := optimal_of_run ht h hoptimal
  refine ⟨(reports_of_run h hoptimal).1, hsame,
    fun a ha => isNextTo_of_mem_alternates ht h hoptimal ha,
    ⟨solution.tableau.basicPoint, ?_, hsame.symm.isVertex (hcanonical.isVertex_basicPoint hrhs),
      hvalue, hle, ?_⟩,
    fun hnil a ha => values_ne_of_degenerate_nil ht h hoptimal hnil ha⟩
  · rw [hcanonical.values_eq, hsame.names_eq]
  · intro hnil y hy hy' j hj
    exact eq_basicPoint_of_alternates_nil ht h hoptimal hnil hy hy' hj

/-- Two products of the same profit can be made in other amounts, which are found. If the resource
of a product is bought at the price that the product brings, nothing else is found and no other
vertex is optimal. -/
theorem run_alternates_equalProfits :
    let t := Tableau.equalProfits
    let t' := Tableau.boughtResource
    let s : Solver := {}
    t.IsCanonical ∧ t'.IsCanonical ∧ ∃ solution solution' a,
      (s.run t t.rows).outcome = .ok solution ∧ solution.status = .optimal ∧
      (s.run t' t'.rows).outcome = .ok solution' ∧ solution'.status = .optimal ∧
      a ∈ solution.alternates ∧ a.entering = "y" ∧ a.leaving = "s2" ∧ a.IsNextTo solution ∧
      a.tableau.values ≠ solution.tableau.values ∧
      ∀ y₁ y₂, t'.IsVertex y₁ → t'.IsVertex y₂ → t'.valueAt y₁ = solution'.objective →
        t'.valueAt y₂ = solution'.objective → ∀ j < t'.width, y₁ j = y₂ j := by
  intro t t' s
  have hcanonical : t.IsCanonical := by decide +kernel
  have hcanonical' : t'.IsCanonical := by decide +kernel
  have hrun : (fun solution : Solution ℚ => (solution.status, solution.degenerate,
      solution.alternates.map fun a => (a.entering, a.leaving))) <$> (s.run t t.rows).outcome =
      .ok (.optimal, [], [("y", "s2")]) := by
    decide +kernel
  have hrun' : (fun solution : Solution ℚ => (solution.status, solution.alternates)) <$>
      (s.run t' t'.rows).outcome = .ok (.optimal, []) := by
    decide +kernel
  obtain ⟨solution, h, hreport⟩ := Outcome.map_eq_ok.1 hrun
  obtain ⟨solution', h', hreport'⟩ := Outcome.map_eq_ok.1 hrun'
  simp only [Prod.mk.injEq] at hreport hreport'
  obtain ⟨hoptimal, hdegenerate, halternates⟩ := hreport
  obtain ⟨hoptimal', hnil⟩ := hreport'
  obtain ⟨a, ha, hnames⟩ : ∃ a ∈ solution.alternates, (a.entering, a.leaving) = ("y", "s2") := by
    rw [← List.mem_map, halternates]
    exact List.mem_singleton_self _
  obtain ⟨hentering, hleaving⟩ := Prod.mk.inj hnames
  obtain ⟨-, -, hnext, -, hne⟩ := run_alternates hcanonical h hoptimal
  obtain ⟨-, -, -, ⟨x, -, -, -, -, honly⟩, -⟩ := run_alternates hcanonical' h' hoptimal'
  refine ⟨hcanonical, hcanonical', solution, solution', a, h, hoptimal, h', hoptimal',
    ha, hentering, hleaving, hnext a ha, hne hdegenerate a ha,
    fun y₁ y₂ hy₁ hy₂ hvalue₁ hvalue₂ j hj => ?_⟩
  rw [honly hnil y₁ hy₁ hvalue₁ j hj, honly hnil y₂ hy₂ hvalue₂ j hj]

end Solver

end LinProg
