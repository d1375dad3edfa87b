import LinProg.Proofs.Problem
import LinProg.Proofs.Session

/-!
# Reoptimizing a problem

The user of a problem solves it and then changes it by one request after the other, with costs meant
in the sense of the problem. Every optimal solution is revised and run from its own basis. The
program that the requests ask for could as well be written down anew and solved with the slack
variables basic. In exact arithmetic both ways end with the same kind of status and the same
objective, which is the optimum that the user has asked for.
-/

namespace LinProg

section

variable {α : Type}

namespace Problem

/-- The solutions of a problem after some requests, each of which revises the optimal solution
before it. Each run may have limits of its own. -/
inductive Reoptimized [Scalar α] (p : Problem α) : List (Request α) → Solution α → Prop where
  | solved {t : Tableau α} {solution : Solution α} (ht : p.toTableau = .ok t) (s : Solver)
      (h : (s.solve t).outcome = .ok solution) : Reoptimized p [] solution
  | updated {requests : List (Request α)} {solution solution' : Solution α} {snapshot : Snapshot α}
      (before : Reoptimized p requests solution) (hsnapshot : solution.snapshot = .ok snapshot)
      (s : Solver) (request : Request α)
      (h : (s.update snapshot (p.tableauRequest request)).outcome = .ok solution') :
      Reoptimized p (requests ++ [request]) solution'

/-- The tableau of a problem after some requests, written down anew with the slack variables
basic. -/
def restated [Arithmetic α] (p : Problem α) (t : Tableau α) (requests : List (Request α)) :
    Tableau α :=
  let raw := requests.foldl (fun raw request => raw.edit (p.tableauRequest request)) t
  { raw with basis := raw.names.drop raw.structural }

/-- The tableau of a problem after some requests with the costs as the user states them. -/
def edited [Zero α] (p : Problem α) (t : Tableau α) (requests : List (Request α)) : Tableau α :=
  requests.foldl Tableau.edit
    { t with costs := p.objective.coefficients ++ List.replicate t.height 0 }

/-- The value is the cost of a feasible point, and none has a better one in the sense of the
problem. -/
def IsOptimum (p : Problem ℚ) (t : Tableau ℚ) (value : ℚ) : Prop :=
  (∃ y, t.IsFeasible y ∧ t.valueAt y = value) ∧ ∀ y, t.IsFeasible y →
    if p.objective.minimize then value ≤ t.valueAt y else t.valueAt y ≤ value

end Problem

end

/-- A mixture of two parts at least cost. -/
def Problem.leastCostMixture : Problem ℚ where
  names := ["x", "y"]
  objective := { coefficients := [3, 2], minimize := true }
  constraints := [
    { name := "demand", coefficients := [1, 2], relation := .atLeast, rhs := 4 },
    { name := "store", coefficients := [1, 1], relation := .atMost, rhs := 5 }]
  integer := []

/-! ### The raw tableau -/

/-- Editing keeps the slack variables basic. -/
theorem Tableau.IsValid.basis_edit {t : Tableau ℚ} {request : Request ℚ} (ht : t.IsValid)
    (ht' : (t.edit request).IsValid) (hbasis : t.basis = t.names.drop t.structural) :
    (t.edit request).basis = (t.edit request).names.drop (t.edit request).structural := by
  cases request with
  | objectiveChange costs => exact hbasis
  | rhsChange rhs => exact hbasis
  | newConstraints rows rhs costs =>
    have hn : t.structural ≤ t.names.length := Nat.sub_le _ _
    rw [edit, structural_withRows, basis_withRows, names_withRows, List.drop_append_of_le_length hn,
      hbasis]
  | newVariables columns costs names =>
    have hn : t.structural ≤ t.names.length := Nat.sub_le _ _
    have hheight : (t.withColumns columns costs names).height = t.height :=
      ht'.length_rhs.symm.trans ht.length_rhs
    have hstructural : (t.withColumns columns costs names).structural =
        t.structural + names.length := by
      have hsum := ht.structural_add_height
      rw [structural, hheight, width_withColumns]
      omega
    rw [edit, hstructural, names_withColumns, Snapshot.spliceAt, List.drop_left']
    · exact hbasis
    · rw [List.length_append, List.length_take_of_le hn]
  | coefficientChange rows =>
    have hheight : (t.edit (.coefficientChange rows)).height = t.height :=
      ht'.length_rhs.symm.trans ht.length_rhs
    rw [structural, hheight]
    exact hbasis

/-- With every cost replaced, a request asks for the tableau with every cost replaced. -/
theorem Tableau.edit_mapCosts {f : ℚ → ℚ} (hf : f 0 = 0) (t : Tableau ℚ) (request : Request ℚ) :
    Tableau.edit { t with costs := t.costs.map f } (request.mapCosts f) =
      { t.edit request with costs := (t.edit request).costs.map f } := by
  cases request with
  | objectiveChange costs => rfl
  | rhsChange rhs => rfl
  | newConstraints rows rhs costs =>
    cases costs with
    | none => simp [edit, withRows, Request.mapCosts, hf]
    | some costs => simp [edit, withRows, Request.mapCosts]
  | newVariables columns costs names =>
    have hstructural : structural { t with costs := t.costs.map f } = t.structural := rfl
    simp [edit, withColumns, Request.mapCosts, Snapshot.spliceAt, hstructural, List.map_take,
      List.map_drop]
  | coefficientChange rows => rfl

namespace Session

/-- The slack variables of the raw tableau of a session are basic. -/
theorem basis_raw {t raw : Tableau ℚ} {solution : Solution ℚ} (ht : t.IsCanonical)
    (hid : t.rows.HasIdentityAt t.structural) (hbasis : t.basis = t.names.drop t.structural)
    (h : Session t raw solution) : raw.basis = raw.names.drop raw.structural := by
  induction h with
  | solved s h => exact hbasis
  | updated before hsnapshot s request h ih =>
    have hafter := (before.updated hsnapshot s request h).underlies ht hid
    exact (before.underlies ht hid).1.isValid.basis_edit hafter.1.isValid ih
  | resolved before ha s h ih => exact ih

end Session

/-! ### Costs in the sense of the problem -/

namespace Problem

variable {p : Problem ℚ} {t : Tableau ℚ} {requests : List (Request ℚ)}
  {solution scratch : Solution ℚ}

/-- The costs of a request are read like the objective. -/
theorem tableauRequest_eq (p : Problem ℚ) (request : Request ℚ) :
    p.tableauRequest request = request.mapCosts p.objectiveValue := by
  unfold tableauRequest
  split
  · next hsense =>
    have hvalue : p.objectiveValue = (- ·) := funext fun _ => if_pos hsense
    rw [hvalue]
  · next hsense =>
    have hvalue : p.objectiveValue = id := funext fun _ => if_neg hsense
    rw [hvalue]
    cases request <;> simp [Request.mapCosts]

/-- The costs stay those of the user, read like the objective, whatever the requests are. -/
theorem foldl_edit_tableauRequest (p : Problem ℚ) (t : Tableau ℚ) (requests : List (Request ℚ)) :
    requests.foldl (fun raw request => raw.edit (p.tableauRequest request))
        { t with costs := t.costs.map p.objectiveValue } =
      { requests.foldl Tableau.edit t with
        costs := (requests.foldl Tableau.edit t).costs.map p.objectiveValue } := by
  induction requests generalizing t with
  | nil => rfl
  | cons request requests ih =>
    have hzero : p.objectiveValue 0 = 0 := by simp [objectiveValue]
    rw [List.foldl_cons, tableauRequest_eq, Tableau.edit_mapCosts hzero, ih]
    rfl

/-- The raw tableau that the requests ask for has the costs of the user, read like the objective. -/
theorem raw_eq_edited (ht : p.toTableau = .ok t) (requests : List (Request ℚ)) :
    requests.foldl (fun raw request => raw.edit (p.tableauRequest request)) t =
      { p.edited t requests with costs := (p.edited t requests).costs.map p.objectiveValue } := by
  obtain ⟨-, -, -, hcosts⟩ := toTableau_spec ht
  rw [edited, ← foldl_edit_tableauRequest]
  dsimp only
  rw [← hcosts]

/-- Every solution of a problem belongs to a session of its tableau. -/
theorem Reoptimized.exists_session (h : p.Reoptimized requests solution) :
    ∃ t, p.toTableau = .ok t ∧ Session t
      (requests.foldl (fun raw request => raw.edit (p.tableauRequest request)) t) solution := by
  induction h with
  | solved ht s h => exact ⟨_, ht, .solved s h⟩
  | updated before hsnapshot s request h ih =>
    obtain ⟨t, ht, hsession⟩ := ih
    refine ⟨t, ht, ?_⟩
    rw [List.foldl_append]
    exact hsession.updated hsnapshot s _ h

/-- The cost of a point of the raw tableau is its cost for the user, read like the objective. -/
theorem valueAt_raw (p : Problem ℚ) (edited : Tableau ℚ) (y : ℕ → ℚ) :
    Tableau.valueAt { edited with costs := edited.costs.map p.objectiveValue } y =
      p.objectiveValue (edited.valueAt y) := by
  simp only [Tableau.valueAt, Tableau.costAt, objectiveValue_eq_mul, Finset.mul_sum]
  refine Finset.sum_congr rfl fun j _ => ?_
  rw [List.getD_eq_getElem?_getD, List.getElem?_map, List.getD_eq_getElem?_getD]
  cases edited.costs[j]? with
  | none => simp
  | some cost => exact mul_assoc _ _ _

/-- The largest cost of the raw tableau is the optimum in the sense of the problem. -/
theorem isOptimum_of_raw {edited raw : Tableau ℚ}
    (hraw : raw = { edited with costs := edited.costs.map p.objectiveValue }) {value : ℚ}
    (hattained : ∃ y, raw.IsFeasible y ∧ raw.valueAt y = value)
    (hbound : ∀ y, raw.IsFeasible y → raw.valueAt y ≤ value) :
    p.IsOptimum edited (p.objectiveValue value) := by
  have hfeasible : ∀ y, raw.IsFeasible y ↔ edited.IsFeasible y := by
    subst hraw
    exact fun y => ⟨fun h => ⟨h.nonneg, h.row_eq⟩, fun h => ⟨h.nonneg, h.row_eq⟩⟩
  have hvalue : ∀ y, raw.valueAt y = p.objectiveValue (edited.valueAt y) := by
    subst hraw
    exact p.valueAt_raw edited
  obtain ⟨y, hy, rfl⟩ := hattained
  refine ⟨⟨y, (hfeasible y).1 hy, ?_⟩, fun y' hy' => ?_⟩
  · rw [hvalue]
    unfold objectiveValue
    split
    · rw [neg_neg]
    · rfl
  · have hle := hbound y' ((hfeasible y').2 hy')
    rw [hvalue y'] at hle
    unfold objectiveValue at hle ⊢
    split at hle
    · next hsense =>
      rw [if_pos hsense, if_pos hsense]
      exact neg_le.1 hle
    · next hsense =>
      rw [if_neg hsense, if_neg hsense]
      exact hle

/-- Revising the optimal solutions of a problem by one request after the other ends with the same
kind of status as solving the program anew that the requests ask for. If the status is optimal, the
objectives are the same, and as the user reads it the objective is the optimum of the edited
problem. -/
theorem reoptimized_agrees (ht : p.toTableau = .ok t) (h : p.Reoptimized requests solution)
    (s : Solver) (hscratch : (s.solve (p.restated t requests)).outcome = .ok scratch) :
    solution.status.SameKind scratch.status ∧
      (solution.status = .optimal → solution.objective = scratch.objective ∧
        p.IsOptimum (p.edited t requests) (p.objectiveValue solution.objective)) := by
  obtain ⟨t', ht', hsession⟩ := h.exists_session
  obtain rfl : t = t' := Except.ok.inj (ht.symm.trans ht')
  obtain ⟨hcanonical, hid, hbasis, -⟩ := toTableau_spec ht
  obtain ⟨hunder, -⟩ := hsession.underlies hcanonical hid
  have hslack := hsession.basis_raw hcanonical hid hbasis
  have hrestated : p.restated t requests =
      requests.foldl (fun raw request => raw.edit (p.tableauRequest request)) t := by
    rw [restated, ← hslack]
  have hraw := hunder.isValid.isCanonical_of_slackBasis hunder.hasIdentity hslack
  rw [hrestated] at hscratch
  have hkind := (hsession.admits hcanonical hid).sameKind (Solver.admits_of_run hraw hscratch)
  refine ⟨hkind, fun hoptimal => ?_⟩
  obtain ⟨⟨y, hy, hvalue⟩, hbound⟩ := hsession.optimal hcanonical hid hoptimal
  refine ⟨?_, isOptimum_of_raw (p.raw_eq_edited ht requests) ⟨y, hy, hvalue⟩ hbound⟩
  -- each objective is the cost of a point that the other bounds
  have hoptimal' : scratch.status = .optimal := by
    rw [hoptimal] at hkind
    cases hstatus : scratch.status with
    | optimal => rfl
    | unbounded column name => exact (hstatus ▸ hkind).elim
    | infeasible row name => exact (hstatus ▸ hkind).elim
  obtain ⟨hfeasible, hvalue', hbound'⟩ := Solver.optimal_of_run hraw hscratch hoptimal'
  refine le_antisymm ?_ ?_
  · rw [← hvalue]
    exact hbound' y hy
  · rw [← hvalue']
    exact hbound _ hfeasible

/-- A mixture is wanted at least cost. The demand grows, then the prices change, and at last one of
the parts becomes scarce. -/
theorem reoptimized_agrees_leastCostMixture :
    ∃ t solution scratch, leastCostMixture.toTableau = .ok t ∧
      leastCostMixture.Reoptimized [.rhsChange [-6, 5], .objectiveChange [1, 3, 0, 0],
        .newConstraints [[1, 0, 0, 0, 1]] [3] none] solution ∧
      (({} : Solver).solve (leastCostMixture.restated t [.rhsChange [-6, 5],
        .objectiveChange [1, 3, 0, 0], .newConstraints [[1, 0, 0, 0, 1]] [3] none])).outcome =
          .ok scratch ∧
      solution.status = .optimal ∧ solution.status.SameKind scratch.status ∧
      solution.objective = scratch.objective ∧
      leastCostMixture.IsOptimum (leastCostMixture.edited t [.rhsChange [-6, 5],
        .objectiveChange [1, 3, 0, 0], .newConstraints [[1, 0, 0, 0, 1]] [3] none])
          (leastCostMixture.objectiveValue solution.objective) := by
  have hchain : (·.status) <$> (leastCostMixture.toTableau >>= fun t =>
      (({} : Solver).solve t).outcome >>= fun first => first.snapshot >>= fun snapshot =>
        (({} : Solver).update snapshot
          (leastCostMixture.tableauRequest (.rhsChange [-6, 5]))).outcome >>= fun second =>
        second.snapshot >>= fun snapshot =>
          (({} : Solver).update snapshot
            (leastCostMixture.tableauRequest (.objectiveChange [1, 3, 0, 0]))).outcome >>=
          fun third => third.snapshot >>= fun snapshot =>
            (({} : Solver).update snapshot (leastCostMixture.tableauRequest
              (.newConstraints [[1, 0, 0, 0, 1]] [3] none))).outcome) = .ok .optimal := by
    decide +kernel
  have hscratch : (·.status) <$> (leastCostMixture.toTableau >>= fun t =>
      (({} : Solver).solve (leastCostMixture.restated t [.rhsChange [-6, 5],
        .objectiveChange [1, 3, 0, 0], .newConstraints [[1, 0, 0, 0, 1]] [3] none])).outcome) =
      .ok .optimal := by
    decide +kernel
  obtain ⟨solution, h, hoptimal⟩ := Outcome.map_eq_ok.1 hchain
  obtain ⟨t, ht, h⟩ := Outcome.bind_eq_ok.1 h
  obtain ⟨first, hfirst, h⟩ := Outcome.bind_eq_ok.1 h
  obtain ⟨snapshot, hsnapshot, h⟩ := Outcome.bind_eq_ok.1 h
  obtain ⟨second, hsecond, h⟩ := Outcome.bind_eq_ok.1 h
  obtain ⟨snapshot', hsnapshot', h⟩ := Outcome.bind_eq_ok.1 h
  obtain ⟨third, hthird, h⟩ := Outcome.bind_eq_ok.1 h
  obtain ⟨snapshot'', hsnapshot'', hlast⟩ := Outcome.bind_eq_ok.1 h
  obtain ⟨scratch, h, -⟩ := Outcome.map_eq_ok.1 hscratch
  obtain ⟨t', ht', hscratch⟩ := Outcome.bind_eq_ok.1 h
  obtain rfl : t = t' := Except.ok.inj (ht.symm.trans ht')
  have hreoptimized := (((Reoptimized.solved ht {} hfirst).updated hsnapshot {} _ hsecond).updated
    hsnapshot' {} _ hthird).updated hsnapshot'' {} _ hlast
  obtain ⟨hkind, hvalue⟩ := reoptimized_agrees ht hreoptimized {} hscratch
  obtain ⟨hobjective, hoptimum⟩ := hvalue hoptimal
  exact ⟨t, solution, scratch, ht, hreoptimized, hscratch, hoptimal, hkind, hobjective, hoptimum⟩

end Problem

end LinProg
