import LinProg.Proofs.Double
import LinProg.Proofs.Limit

/-!
# Canonical form along a run

A run on doubles rounds at every pivot, and yet its basic columns stay unit columns to the last
digit as long as no number overflows. A pivot stores the ones and zeros of the entering column;
every other basic column has a zero in the pivot row, and loses only multiples of that zero. For the
same reason its reduced cost is exactly zero, so no rule enters a column that is basic already. All
of this holds in any arithmetic with the laws of zeros and ones.
-/

namespace LinProg

open Arithmetic Scalar

namespace Tableau

variable {α : Type} [Arithmetic α] {t : Tableau α}

/-- Every number of the tableau and every imputed or reduced cost is finite. -/
structure IsFinite (t : Tableau α) : Prop where
  rows : ∀ row ∈ t.rows, ∀ v ∈ row, isFinite v = true
  rhs : ∀ v ∈ t.rhs, isFinite v = true
  costs : ∀ c ∈ t.costs, isFinite c = true
  imputed : ∀ costs, ReducedCosts.compute t = .ok costs → ∀ v ∈ costs.imputed, isFinite v = true
  reduced : ∀ costs, ReducedCosts.compute t = .ok costs → ∀ v ∈ costs.reduced, isFinite v = true

theorem isFinite_iff :
    t.IsFinite ↔ (∀ row ∈ t.rows, ∀ v ∈ row, isFinite v = true) ∧
      (∀ v ∈ t.rhs, isFinite v = true) ∧ (∀ c ∈ t.costs, isFinite c = true) ∧
      (∀ costs, ReducedCosts.compute t = .ok costs → ∀ v ∈ costs.imputed, isFinite v = true) ∧
      ∀ costs, ReducedCosts.compute t = .ok costs → ∀ v ∈ costs.reduced, isFinite v = true :=
  ⟨fun ⟨h₁, h₂, h₃, h₄, h₅⟩ => ⟨h₁, h₂, h₃, h₄, h₅⟩,
    fun ⟨h₁, h₂, h₃, h₄, h₅⟩ => ⟨h₁, h₂, h₃, h₄, h₅⟩⟩

instance (t : Tableau α) : Decidable t.IsFinite := decidable_of_iff _ isFinite_iff.symm

theorem IsFinite.entry (h : t.IsFinite) (ht : t.IsValid) {i j : Nat} (hi : i < t.height)
    (hj : j < t.width) : isFinite (t.rows.entry i j) = true := by
  obtain ⟨row, hrow, hentry⟩ := ht.hasShape.entry_mem hi hj
  exact h.rows row hrow _ hentry

/-- Two products in doubles, where the first pivot divides by three. -/
def sharedThirds : Tableau Float where
  rows := [[3, 1, 1, 0], [1, 3, 0, 1]]
  rhs := [4, 6]
  costs := [3, 2, 0, 0]
  names := ["x", "y", "s1", "s2"]
  basis := ["s1", "s2"]

end Tableau

section

variable {α : Type} [Scalar α]

/-- The column whose variable grows in a move. -/
def Move.entering? : Move α → Option Nat
  | .pivot p => some p.column
  | .halt (.unbounded column _) => some column
  | .halt _ => none

omit [Scalar α] in
theorem Selection.Becomes.entering?_eq {t : Tableau α} {selection : Selection α} {move : Move α}
    (h : selection.Becomes t move) : move.entering? = selection.entering? := by
  cases h <;> rfl

namespace Solver

/-- The run of a tableau that passes the checks goes through the given state: within some limit on
pivots up to its own it ends there. From one limit to the next a run ends in the same state or one
step further. -/
def Visits (s : Solver) (t : Tableau α) (r : Run α) : Prop :=
  ready t = .ok () ∧ ∃ n ≤ s.maxIterations, (s.walk n (.start t)).run = r

/-- The given state of a run from a tableau is in exact form: only rows, right-hand sides and the
basis have changed, the basic columns are unit columns of different variables with reduced cost
zero, and the variable that grows next is not basic. -/
structure IsExactAt (s : Solver) (t : Tableau α) (r : Run α) : Prop where
  names_eq : r.tableau.names = t.names
  costs_eq : r.tableau.costs = t.costs
  height_eq : r.tableau.height = t.height
  isCanonical : r.tableau.IsCanonical
  nodup_basis : r.tableau.basis.Nodup
  reduced_basic : ∃ costs, ReducedCosts.compute r.tableau = .ok costs ∧
    ∀ i < r.tableau.height, ∃ v, costs.reduced[r.tableau.basicColumn i]? = some v ∧ (v == 0) = true
  entering_new : ∀ move costs, s.next r = .ok (move, costs) →
    ∀ column, move.entering? = some column → ∃ name, r.tableau.names[column]? = some name ∧
      name ∉ r.tableau.basis

section

variable [LawfulUnits α] {s : Solver} {t : Tableau α} {r r' : Run α} {costs : ReducedCosts α}

/-! ### One step -/

/-- A column that is basic has no negative entry. -/
theorem isNegative_entry_basicColumn (ht : t.IsCanonical) {i k : Nat} (hi : i < t.height)
    (hk : k < t.height) : isNegative (t.rows.entry k (t.basicColumn i)) = false := by
  by_cases hki : k = i
  · rw [hki]
    exact LawfulUnits.isNegative_one (ht.one_basicColumn hi)
  · exact LawfulUnits.isNegative_zero (ht.zero_basicColumn hi hk hki)

/-- The variable that grows in the next move is not basic: the repair of a row needs a negative
entry, and the other rules need a negative reduced cost. -/
theorem basicColumn_ne_of_next (hr : r.tableau.IsCanonical) (hfinite : r.tableau.IsFinite)
    {move : Move α} (h : s.next r = .ok (move, costs)) {column : Nat}
    (hcolumn : move.entering? = some column) {i : Nat} (hi : i < r.tableau.height) :
    r.tableau.basicColumn i ≠ column := by
  rintro rfl
  obtain ⟨hcosts, ⟨-, rfl⟩ | ⟨hoptimal, selection, hselection, hmove⟩⟩ := next_cases h
  · cases hcolumn
  rw [hmove.entering?_eq] at hcolumn
  have hreduced : ∀ (column : Nat) (v : α) (rule : PivotRule) (precedes : Nat → Nat → Bool),
      costs.reduced[column]? = some v → isNegative v = true →
      Selection.ratioTest r.tableau column rule precedes = .ok selection → False := by
    intro column v rule precedes hv hneg htest
    rw [Selection.entering?_of_ratioTest htest, Option.some_inj] at hcolumn
    obtain ⟨w, hw, hzero⟩ := ReducedCosts.reduced_basicColumn_beq hr hfinite.costs hcosts hi
    rw [← hcolumn, hv, Option.some_inj] at hw
    rw [hw, LawfulUnits.isNegative_zero hzero] at hneg
    cases hneg
  cases hstanding : Standing.classify r.tableau.rhs costs.reduced with
  | optimal => exact hoptimal hstanding
  | infeasible row =>
    rw [hstanding] at hselection
    obtain ⟨row', -, hrepair⟩ | ⟨hlowest, -⟩ | ⟨hlowest, -⟩ := select_cases hselection
    · obtain ⟨hrow, hneg⟩ := Selection.isNegative_of_repair hrepair hcolumn
      rw [isNegative_entry_basicColumn hr hi hrow] at hneg
      cases hneg
    · cases hlowest
    · cases hlowest
  | improvable =>
    obtain ⟨-, v, hv, hnonneg⟩ := Standing.classify_eq_improvable.1 hstanding
    have hsome : ∃ v ∈ costs.reduced, isNegative v = true :=
      ⟨v, hv, LawfulUnits.isNegative_of_not_nonneg (hfinite.reduced costs hcosts v hv) hnonneg⟩
    rw [hstanding] at hselection
    obtain ⟨row, hrow, -⟩ | ⟨-, -, columns, -, hbland⟩ | ⟨-, -, hdantzig⟩ := select_cases hselection
    · cases hrow
    · obtain ⟨column, v, hv, hneg, -, htest⟩ := Selection.bland_cases hsome hbland
      exact hreduced column v _ _ hv hneg htest
    · obtain ⟨column, v, hv, hneg, htest⟩ :=
        Selection.dantzig_cases (separatesNegative_of_isFinite (hfinite.reduced costs hcosts)) hsome
          hdantzig
      exact hreduced column v _ _ hv hneg htest

omit [LawfulUnits α] in
/-- The variable that grows in the next move is one of the tableau. -/
theorem exists_name_of_next (hr : r.tableau.IsWellFormed) {move : Move α}
    (h : s.next r = .ok (move, costs)) {column : Nat} (hcolumn : move.entering? = some column) :
    ∃ name, r.tableau.names[column]? = some name := by
  obtain ⟨-, ⟨-, rfl⟩ | ⟨-, selection, -, hmove⟩⟩ := next_cases h
  · cases hcolumn
  · cases hmove with
    | pivot p =>
      cases hcolumn
      exact ⟨_, List.getElem?_eq_getElem ((readsOff_of_next hr h).1.column_lt hr.toIsValid)⟩
    | unbounded hname =>
      cases hcolumn
      exact ⟨_, hname⟩
    | infeasible => cases hcolumn

/-- A step keeps a canonical tableau canonical if all its numbers are finite. -/
theorem Steps.isCanonical_of_finite (h : s.Steps r r') (hr : r.tableau.IsCanonical)
    (hfinite : r.tableau.IsFinite) : r'.tableau.IsCanonical := by
  obtain ⟨p, costs, hnext, hadvance⟩ := h
  obtain ⟨hp, hsign⟩ := readsOff_of_next hr.toIsWellFormed hnext
  have hne : (p.element == 0) = false := by
    by_contra hzero
    rw [Bool.not_eq_false] at hzero
    rw [LawfulUnits.isNegative_zero hzero, LawfulUnits.isPositive_zero hzero] at hsign
    simp at hsign
  have hpcolumn := hp.column_lt hr.toIsValid
  exact p.isCanonical_apply_of_finite hr hp (fun i hi => hfinite.entry hr.toIsValid hi hpcolumn) hne
    (apply_of_advance hadvance)

/-! ### Whole runs -/

/-- A canonical tableau stays canonical as long as all numbers are finite. -/
theorem isCanonical_walk (ht : t.IsCanonical) {n : Nat}
    (hfinite : ∀ m < n, (s.walk m (.start t)).run.tableau.IsFinite) :
    (s.walk n (.start t)).run.tableau.IsCanonical := by
  induction n with
  | zero => rwa [run_walk_zero (r := .start t) ht.toIsWellFormed]
  | succ n ih =>
    have hbefore := ih fun m hm => hfinite m (hm.trans n.lt_succ_self)
    rcases walk_succ_cases s n (r := .start t) ht.toIsWellFormed with hsame | hstep
    · rwa [hsame]
    · exact hstep.isCanonical_of_finite hbefore (hfinite n n.lt_succ_self)

/-- Every state of a run is in exact form as long as all numbers are finite. -/
theorem isExactAt_walk (ht : t.IsCanonical) {n : Nat}
    (hfinite : ∀ m ≤ n, (s.walk m (.start t)).run.tableau.IsFinite) :
    s.IsExactAt t (s.walk n (.start t)).run := by
  have hr := isCanonical_walk (s := s) ht fun m hm => hfinite m hm.le
  obtain ⟨hnames, hcosts, hheight⟩ := names_costs_height_of_reflTransGen
    (walk_spec s n (.start t)).1 ht.toIsWellFormed
  obtain ⟨costs, hcompute, -⟩ := ReducedCosts.exists_compute_eq_ok hr.toIsWellFormed
  refine ⟨hnames, hcosts, hheight, hr, hr.nodup_basis, ⟨costs, hcompute, fun i hi => ?_⟩, ?_⟩
  · exact ReducedCosts.reduced_basicColumn_beq hr (hfinite n le_rfl).costs hcompute hi
  · intro move costs hnext column hcolumn
    obtain ⟨name, hname⟩ := exists_name_of_next hr.toIsWellFormed hnext hcolumn
    refine ⟨name, hname, fun hmem => ?_⟩
    obtain ⟨i, hi⟩ := List.mem_iff_getElem?.1 hmem
    have hlt : i < (s.walk n (.start t)).run.tableau.height :=
      hr.length_basis ▸ (List.getElem?_eq_some_iff.1 hi).1
    have hwidth := (List.getElem?_eq_some_iff.1 hname).1
    exact basicColumn_ne_of_next hr (hfinite n le_rfl) hnext hcolumn hlt
      ((hr.basicColumn_eq_iff hlt hwidth).2 (hi.trans hname.symm))

end

/-- The solution of a run is read off a state that the run goes through. -/
theorem visits_of_run {s : Solver} {t : Tableau α} {initialRows : Rows α} {solution : Solution α}
    (h : (s.run t initialRows).outcome = .ok solution) :
    ∃ r, s.Visits t r ∧ solution.tableau = r.tableau ∧
      ReducedCosts.compute r.tableau = .ok solution.reducedCosts := by
  obtain ⟨ht, r, hend⟩ := run_eq_ok h
  exact ⟨r, ⟨ready_eq_ok.2 ht, s.maxIterations, le_rfl, hend.run_eq⟩, hend.tableau_eq,
    (next_cases hend.next_eq).1⟩

end Solver

end

/-! ### Doubles -/

namespace Solver

/-- A run on doubles keeps the canonical form exactly. If the basic columns of a tableau are unit
columns and all numbers stay finite, then every tableau that its run goes through is canonical
again, with the same variables and costs; its basic variables are different, their reduced costs are
exactly zero, and no variable grows next that is basic already. The tableau and the reduced costs of
a solution are those of such a state. -/
theorem run_isExactAt (s : Solver) (t : Tableau Float)
    (hunit : ∀ i < t.height, t.rows.HasUnitColumn (t.basicColumn i) i)
    (hfinite : ∀ r, s.Visits t r → r.tableau.IsFinite) :
    (∀ r, s.Visits t r → s.IsExactAt t r) ∧
      ∀ initialRows solution, (s.run t initialRows).outcome = .ok solution →
        ∃ r, s.Visits t r ∧ solution.tableau = r.tableau ∧
          ReducedCosts.compute r.tableau = .ok solution.reducedCosts := by
  refine ⟨?_, fun _ _ h => visits_of_run h⟩
  rintro _ ⟨hready, n, hn, rfl⟩
  have ht : t.IsCanonical := ⟨ready_eq_ok.1 hready, hunit⟩
  exact isExactAt_walk ht fun m hm => hfinite _ ⟨hready, m, hm.trans hn, rfl⟩

theorem run_isExactAt_sharedThirds :
    let s : Solver := ⟨2, 8⟩
    let t := Tableau.sharedThirds
    (∀ i < t.height, t.rows.HasUnitColumn (t.basicColumn i) i) ∧
      (∀ r, s.Visits t r → r.tableau.IsFinite) ∧
      (∀ r, s.Visits t r → s.IsExactAt t r) ∧
      ∀ initialRows solution, (s.run t initialRows).outcome = .ok solution →
        ∃ r, s.Visits t r ∧ solution.tableau = r.tableau ∧
          ReducedCosts.compute r.tableau = .ok solution.reducedCosts := by
  intro s t
  have hunit : ∀ i < t.height, t.rows.HasUnitColumn (t.basicColumn i) i := by decide +kernel
  have hwalk : ∀ n ≤ 2, (s.walk n (.start t)).run.tableau.IsFinite := by decide +kernel
  have hfinite : ∀ r, s.Visits t r → r.tableau.IsFinite := by
    rintro _ ⟨-, n, hn, rfl⟩
    exact hwalk n hn
  exact ⟨hunit, hfinite, run_isExactAt s t hunit hfinite⟩

end Solver

end LinProg
