import LinProg.Proofs.Cutoff
import LinProg.Proofs.Search

/-!
# Searching from the optimum

The last tableau of a solved program states the same program, so a search may as well begin there.
Its first relaxation is optimal without a pivot, and two searches of one program find the same
objective or none. But a search that splits its first relaxation takes a snapshot, and the
coefficients before any pivot are then those of the tableau it was given: if the pivots of the
solver have changed the slack columns, the snapshot is refused, and the search with it. This is the
only difference that the choice of the tableau makes.
-/

namespace LinProg

open Outcome

/-- The costs of the feasible points are bounded. -/
def Tableau.IsBounded (t : Tableau ℚ) : Prop := ∃ v, ∀ y, t.IsFeasible y → t.valueAt y ≤ v

namespace BranchAndBound

variable {b : BranchAndBound ℚ} {t t' : Tableau ℚ} {integer : List Bool}

/-! ### Two searches of one program -/

/-- Both searches have solutions with one objective, or both fail in one way. -/
def EndAlike (o o' : Outcome (IntegerSolution ℚ)) : Prop :=
  (∃ solution solution', o = .ok solution ∧ o' = .ok solution' ∧
      solution.objective = solution'.objective) ∨
    ∃ failure, o = .error failure ∧ o' = .error failure

/-- An outcome that is right about a program is right about the same program in another basis. -/
theorem IsRight.of_sameProgram {incumbent : Option ℚ} {outcome : Outcome (IntegerSolution ℚ)}
    (h : IsRight t' integer incumbent outcome) (hsame : t.SameProgram t') :
    IsRight t integer incumbent outcome where
  ok := by
    intro solution hsolution
    obtain ⟨⟨y, hy, hintegral, hvalue, hperm⟩, hbetter, hle⟩ := h.ok solution hsolution
    rw [Tableau.namedValues, hsame.names_eq, hsame.structural_eq] at hperm
    refine ⟨⟨y, hsame.isFeasible_iff.1 hy, hintegral, ?_, hperm⟩, hbetter,
      fun y' hy' hintegral' => ?_⟩
    · rw [← hsame.valueAt_eq, hvalue]
    · rw [← hsame.valueAt_eq]
      exact hle y' (hsame.isFeasible_iff.2 hy') hintegral'
  none := by
    intro hnone y hy hintegral
    rw [← hsame.valueAt_eq]
    exact h.none hnone y (hsame.isFeasible_iff.2 hy) hintegral

/-- A program has one best objective, so conclusive outcomes that are right about it are alike. -/
theorem IsRight.endAlike {incumbent : Option ℚ} {o o' : Outcome (IntegerSolution ℚ)}
    (h : IsRight t integer incumbent o) (h' : IsRight t integer incumbent o')
    (ho : IsConclusive o) (ho' : IsConclusive o') : EndAlike o o' := by
  -- a solution exceeds the incumbent, so the other search cannot have ended without one
  have hmixed : ∀ {o o' : Outcome (IntegerSolution ℚ)} {solution : IntegerSolution ℚ},
      IsRight t integer incumbent o → IsRight t integer incumbent o' → o = .ok solution →
      o' = refuse .noIntegerSolution → False := by
    intro o o' solution h h' ho ho'
    obtain ⟨⟨y, hy, hintegral, hvalue, -⟩, hbetter, -⟩ := h.ok solution ho
    obtain ⟨i, hi, hle⟩ := h'.none ho' y hy hintegral
    exact absurd (hbetter i hi) (not_lt.2 (hvalue ▸ hle))
  rcases ho with ⟨solution, ho⟩ | ho
  · rcases ho' with ⟨solution', ho'⟩ | ho'
    · obtain ⟨⟨y, hy, hintegral, hvalue, -⟩, -, hle⟩ := h.ok solution ho
      obtain ⟨⟨y', hy', hintegral', hvalue', -⟩, -, hle'⟩ := h'.ok solution' ho'
      refine .inl ⟨solution, solution', ho, ho', le_antisymm ?_ ?_⟩
      · exact hvalue ▸ hle' y hy hintegral
      · exact hvalue' ▸ hle y' hy' hintegral'
    · exact (hmixed h h' ho ho').elim
  · rcases ho' with ⟨solution', ho'⟩ | ho'
    · exact (hmixed h' h ho' ho).elim
    · exact .inr ⟨_, ho, ho'⟩

/-! ### Searches of bounded programs -/

/-- At a node of a bounded program something is found unless its run is cut off. -/
theorem visit_of_isBounded (b : BranchAndBound ℚ) (hbounded : t.IsBounded)
    (hlen : integer.length = t.structural) {node : Node ℚ} (hnode : node.revision.Narrows t)
    (bound : Option ℚ) (number : Nat) :
    (∃ visit, (b.visit integer bound number node).outcome = .ok visit) ∨
      (b.visit integer bound number node).outcome =
        refuse (.iterationLimit b.solver.maxIterations) := by
  have hready := hnode.isReady
  rw [← hlen] at hready
  rw [visit, Recorded.outcome_andThen]
  rcases b.solver.run_outcome hready.isWellFormed node.revision.initialRows with
    ⟨solution, hrun⟩ | hlimit
  · have hresolve : (b.solver.resolve node.revision).outcome = .ok solution := hrun
    rw [hresolve, ok_bind]
    cases hstatus : solution.status with
    | optimal =>
      obtain ⟨visit, hvisit, -⟩ :=
        exists_examine_of_isReady (hready.run hresolve) hstatus bound number node.depth
      exact .inl ⟨visit, hvisit⟩
    | infeasible row name => exact .inl ⟨.infeasible, rfl⟩
    | unbounded column name =>
      obtain ⟨raw, hraw, -⟩ := hnode.exists_underlies
      have hadmits := Solver.admits_of_run hraw.isCanonical hrun
      rw [hstatus] at hadmits
      obtain ⟨v, hv⟩ := hbounded
      obtain ⟨y, hy, hlt, -⟩ := hadmits.2 v 0
      rw [hnode.valueAt_eq] at hlt
      exact absurd (hv y (hnode.isFeasible y hy)) (not_le.2 hlt)
  · have hlimit : (b.solver.resolve node.revision).outcome =
        refuse (.iterationLimit b.solver.maxIterations) := hlimit
    rw [hlimit]
    exact .inr rfl

/-- A search of a bounded program is right about it, and conclusive unless it ends at a limit. -/
theorem solve_of_isBounded (b : BranchAndBound ℚ) (ht : t.IsCanonical)
    (hid : t.rows.HasIdentityAt t.structural) (hlen : integer.length = t.structural)
    (hbounded : t.IsBounded)
    (hlimit : ∀ limit, (b.solve t integer).outcome ≠ refuse (.iterationLimit limit)) :
    IsRight t integer b.incumbent (b.solve t integer).outcome ∧
      IsConclusive (b.solve t integer).outcome := by
  obtain ⟨s, hreaches, hends⟩ := b.solve_spec ht.toIsValid hlen
  have hsound : s.IsSound t integer b.incumbent :=
    invariant_of_reflTransGen (fun _ _ hstep => hstep.isSound hlen) hreaches
      (Search.isSound_start b ht hid)
  refine ⟨hends.isRight hlen hsound, ?_⟩
  generalize (b.solve t integer).outcome = outcome at hends hlimit
  cases hends with
  | found => exact .inl ⟨_, rfl⟩
  | exhausted => exact .inr rfl
  | limited => exact absurd rfl (hlimit _)
  | failed hstack hfailure =>
    have hnarrows := hsound.narrows _ (hstack ▸ List.mem_cons_self)
    rcases b.visit_of_isBounded hbounded hlen hnarrows s.bound (s.visited + 1) with
      ⟨visit, hvisit⟩ | hvisit
    · rw [hfailure] at hvisit
      cases hvisit
    · rw [hfailure] at hvisit
      cases hvisit
      exact absurd rfl (hlimit _)

/-! ### The search from the last tableau -/

/-- An optimum that is the last tableau of another one, with the coefficients of that tableau for
those before any pivot. -/
structure Repeats (again solution : Solution ℚ) : Prop where
  status_eq : again.status = .optimal
  tableau_eq : again.tableau = solution.tableau
  initialRows_eq : again.initialRows = solution.tableau.rows
  objective_eq : again.objective = solution.objective

theorem Repeats.needsSplit_iff {again solution : Solution ℚ} (h : Repeats again solution)
    {bound : Option ℚ} : NeedsSplit integer bound again ↔ NeedsSplit integer bound solution := by
  rw [NeedsSplit, NeedsSplit, h.objective_eq, h.tableau_eq]

theorem Repeats.snapshot_eq {again solution : Solution ℚ} (h : Repeats again solution) :
    again.snapshot = Snapshot.capture solution.tableau solution.tableau.rows := by
  rw [Solution.snapshot, Solution.isOptimal, if_pos (decide_eq_true h.status_eq), h.tableau_eq,
    h.initialRows_eq]

/-- A search that does not split its first relaxation ends there, and is right if what it has found
is. -/
theorem isRight_of_leaf {visit : Visit ℚ} (hvisit : visit.IsRight t integer b.incumbent)
    (hleaf : ∀ lower upper, visit ≠ .split lower upper) (node : Node ℚ) (events : List (Event ℚ))
    (remaining : Nat) :
    IsRight t integer b.incumbent
        (b.explore integer remaining (record (b.start t) node [] events visit)).outcome ∧
      IsConclusive
        (b.explore integer remaining (record (b.start t) node [] events visit)).outcome := by
  have hnothing : visit = .infeasible ∨ visit = .pruned →
      (b.explore integer remaining (record (b.start t) node [] events visit)).outcome =
        refuse .noIntegerSolution := by
    rintro (rfl | rfl)
    · rw [explore.eq_def]
      rfl
    · rw [explore.eq_def]
      rfl
  cases visit with
  | infeasible =>
    rw [hnothing (.inl rfl)]
    exact ⟨⟨fun _ h => (by cases h), fun _ y hy => absurd hy (hvisit y)⟩, .inr rfl⟩
  | pruned =>
    obtain ⟨i, hi, hle⟩ := hvisit
    rw [hnothing (.inr rfl)]
    exact ⟨⟨fun _ h => (by cases h), fun _ y hy _ => ⟨i, hi, hle y hy⟩⟩, .inr rfl⟩
  | integral objective named tableau =>
    obtain ⟨hbetter, hle, hattained⟩ := hvisit
    have hfound : (b.explore integer remaining
        (record (b.start t) node [] events (.integral objective named tableau))).outcome =
          .ok { objective, assignment := named, nodes := 1, tableau } := by
      rw [explore.eq_def]
      rfl
    rw [hfound]
    refine ⟨⟨?_, fun h => (by cases h)⟩, .inl ⟨_, rfl⟩⟩
    rintro _ ⟨⟩
    exact ⟨hattained, hbetter, fun y hy _ => hle y hy⟩
  | split lower upper => exact absurd rfl (hleaf lower upper)

section

variable {s : Solver} {solution : Solution ℚ} (ht : t.IsCanonical)
  (hsolve : (s.solve t).outcome = .ok solution) (hoptimal : solution.status = .optimal)

include ht hsolve hoptimal

/-- The last tableau of a solved program is optimal without a pivot, whatever the limits are. -/
theorem exists_run_again (s' : Solver) :
    ∃ again, (s'.run solution.tableau solution.tableau.rows).outcome = .ok again ∧
      Repeats again solution := by
  obtain ⟨hcanonical, -⟩ := Solver.isCanonical_of_run ht hsolve
  obtain ⟨hrhs, hreduced⟩ := Solver.nonneg_of_run ht hsolve hoptimal
  rw [← hcanonical.forall_mem_rhs] at hrhs
  obtain ⟨again, hagain, hstatus, -, htableau, hobjective⟩ :=
    s'.exists_run_of_nonneg hcanonical hrhs hreduced solution.tableau.rows
  obtain ⟨-, r, hend⟩ := Solver.run_eq_ok hagain
  refine ⟨again, hagain, hstatus, htableau, hend.initialRows_eq, ?_⟩
  rw [hobjective, Solver.objective_of_run ht hsolve]

/-- A search from the last tableau examines the optimum first, and goes on with what it finds. -/
theorem exists_solve_again (b : BranchAndBound ℚ) (hlen : integer.length = t.structural)
    (hnodes : b.maxNodes ≠ 0) :
    ∃ again, (b.solver.run solution.tableau solution.tableau.rows).outcome = .ok again ∧
      Repeats again solution ∧ ∃ node events remaining,
        (b.solve solution.tableau integer).outcome =
          (examine integer b.incumbent 1 0 again).outcome >>= fun visit =>
            (b.explore integer remaining
              (record (b.start solution.tableau) node [] events visit)).outcome := by
  obtain ⟨hcanonical, hsame⟩ := Solver.isCanonical_of_run ht hsolve
  obtain ⟨again, hagain, hrepeats⟩ := exists_run_again ht hsolve hoptimal b.solver
  obtain ⟨remaining, hremaining⟩ := Nat.exists_eq_succ_of_ne_zero hnodes
  let node : Node ℚ := ⟨⟨solution.tableau, solution.tableau.rows⟩, 0⟩
  have hvisit : (b.visit integer b.incumbent 1 node).outcome =
      (examine integer b.incumbent 1 0 again).outcome := by
    rw [visit, Recorded.outcome_andThen, Solver.resolve, hagain, ok_bind, hrepeats.status_eq]
  refine ⟨again, hagain, hrepeats, node, (b.visit integer b.incumbent 1 node).events, remaining, ?_⟩
  rw [← hvisit, b.solve_eq_explore hcanonical.toIsValid (hlen.trans hsame.structural_eq.symm),
    hremaining]
  exact b.explore_cons rfl remaining

/-- A search whose first relaxation has to be split is refused if the slack columns of the last
tableau are not the identity. -/
theorem solve_again_of_needsSplit (b : BranchAndBound ℚ) (hlen : integer.length = t.structural)
    (hnodes : b.maxNodes ≠ 0) (hneeds : NeedsSplit integer b.incumbent solution)
    (hid : ¬ solution.tableau.rows.HasIdentityAt solution.tableau.structural) :
    ∃ cause, Revision.BlamesSlack ⟨solution.tableau, solution.tableau.rows⟩ cause ∧
      (b.solve solution.tableau integer).outcome = refuse cause := by
  obtain ⟨hcanonical, -⟩ := Solver.isCanonical_of_run ht hsolve
  have hrunnable : Revision.IsRunnable ⟨solution.tableau, solution.tableau.rows⟩
      solution.tableau.structural :=
    ⟨hcanonical.toIsValid, hcanonical.hasShape, rfl⟩
  rcases answers_iff.1 hrunnable.capture_answers with ⟨snapshot, hok⟩ | ⟨cause, hcause, hrefused⟩
  · obtain ⟨htableau, hrows, hcaptured⟩ := Snapshot.capture_eq_ok.1 hok
    have hid' := hcaptured.hasIdentity
    rw [htableau, hrows] at hid'
    exact absurd hid' hid
  · obtain ⟨again, -, hrepeats, node, events, remaining, hsearch⟩ :=
      exists_solve_again ht hsolve hoptimal b hlen hnodes
    have hwf : again.tableau.IsWellFormed := hrepeats.tableau_eq ▸ hcanonical.toIsWellFormed
    refine ⟨cause, hcause, ?_⟩
    rw [hsearch, examine_of_snapshot_eq_refuse hwf (hrepeats.needsSplit_iff.2 hneeds)
      (hrepeats.snapshot_eq.trans hrefused)]
    rfl

/-- A search whose first relaxation need not be split ends there. -/
theorem solve_again_of_not_needsSplit (b : BranchAndBound ℚ) (hlen : integer.length = t.structural)
    (hnodes : b.maxNodes ≠ 0) (hneeds : ¬ NeedsSplit integer b.incumbent solution) :
    IsRight solution.tableau integer b.incumbent (b.solve solution.tableau integer).outcome ∧
      IsConclusive (b.solve solution.tableau integer).outcome := by
  obtain ⟨hcanonical, hsame⟩ := Solver.isCanonical_of_run ht hsolve
  obtain ⟨again, hagain, hrepeats, node, events, remaining, hsearch⟩ :=
    exists_solve_again ht hsolve hoptimal b hlen hnodes
  have hwf : again.tableau.IsWellFormed := hrepeats.tableau_eq ▸ hcanonical.toIsWellFormed
  obtain ⟨visit, hvisit, hleaf⟩ :=
    exists_examine_of_not_needsSplit hwf (hrepeats.needsSplit_iff.not.2 hneeds) 1 0
  have hright := isRight_of_finds hcanonical hagain (hlen.trans hsame.structural_eq.symm)
    (finds_of_examine hrepeats.status_eq hvisit) hleaf
  rw [hsearch, hvisit, ok_bind]
  exact isRight_of_leaf hright hleaf node events remaining

end

/-- The first relaxation of a search from the last tableau has to be split, and the slack columns of
this tableau are not the identity. -/
def IsHindered (integer : List Bool) (incumbent : Option ℚ) (solution : Solution ℚ) : Prop :=
  NeedsSplit integer incumbent solution ∧
    ¬ solution.tableau.rows.HasIdentityAt solution.tableau.structural

/-- A search that ends at no limit may visit a node. -/
theorem maxNodes_ne_zero_of_solve (ht : t.IsValid) (hlen : integer.length = t.structural)
    (hlimit : ∀ limit, (b.solve t integer).outcome ≠ refuse (.iterationLimit limit)) :
    b.maxNodes ≠ 0 := by
  intro hzero
  refine hlimit b.maxNodes ?_
  rw [b.solve_eq_explore ht hlen, hzero, explore.eq_def]
  dsimp only [start]
  rw [hzero]

/-- A program is solved and then searched for a solution in whole units, once from the tableau in
which it was given, with the identity in its slack columns, and once from the last tableau of the
solver. If neither search ends at a limit, both find the same objective or fail in the same way,
unless the optimum has to be split and the last tableau has lost the identity: then the search from
the last tableau is refused for a slack column that is no longer its unit column, and the other
search is conclusive. -/
theorem solve_again (b : BranchAndBound ℚ) (s : Solver) (ht : t.IsCanonical)
    (hid : t.rows.HasIdentityAt t.structural) {solution : Solution ℚ}
    (hsolve : (s.solve t).outcome = .ok solution) (hoptimal : solution.status = .optimal)
    (integer : List Bool)
    (hlimit : ∀ limit, (b.solve t integer).outcome ≠ refuse (.iterationLimit limit))
    (hlimit' : ∀ limit,
      (b.solve solution.tableau integer).outcome ≠ refuse (.iterationLimit limit)) :
    (¬(integer.length = t.structural ∧ IsHindered integer b.incumbent solution) →
      EndAlike (b.solve solution.tableau integer).outcome (b.solve t integer).outcome) ∧
    (integer.length = t.structural ∧ IsHindered integer b.incumbent solution →
      IsConclusive (b.solve t integer).outcome ∧
      ∃ cause, Revision.BlamesSlack ⟨solution.tableau, solution.tableau.rows⟩ cause ∧
        (b.solve solution.tableau integer).outcome = refuse cause) := by
  obtain ⟨hcanonical, hsame⟩ := Solver.isCanonical_of_run ht hsolve
  obtain ⟨-, -, hle⟩ := Solver.optimal_of_run ht hsolve hoptimal
  have hbounded : t.IsBounded := ⟨_, hle⟩
  by_cases hlen : integer.length = t.structural
  · have hlen' : integer.length = solution.tableau.structural := hlen.trans hsame.structural_eq.symm
    have hnodes := maxNodes_ne_zero_of_solve ht.toIsValid hlen hlimit
    obtain ⟨hright, hconclusive⟩ := b.solve_of_isBounded ht hid hlen hbounded hlimit
    refine ⟨fun hnot => ?_, fun ⟨_, hneeds, hid'⟩ => ⟨hconclusive, ?_⟩⟩
    · have hagain : IsRight solution.tableau integer b.incumbent
          (b.solve solution.tableau integer).outcome ∧
            IsConclusive (b.solve solution.tableau integer).outcome := by
        by_cases hneeds : NeedsSplit integer b.incumbent solution
        · have hid' : solution.tableau.rows.HasIdentityAt solution.tableau.structural :=
            not_not.1 fun hid' => hnot ⟨hlen, hneeds, hid'⟩
          have hbounded' : solution.tableau.IsBounded := by
            refine ⟨solution.objective, fun y hy => ?_⟩
            rw [hsame.valueAt_eq]
            exact hle y (hsame.isFeasible_iff.1 hy)
          exact b.solve_of_isBounded hcanonical hid' hlen' hbounded' hlimit'
        · exact solve_again_of_not_needsSplit ht hsolve hoptimal b hlen hnodes hneeds
      exact (hagain.1.of_sameProgram hsame).endAlike hright hagain.2 hconclusive
    · exact solve_again_of_needsSplit ht hsolve hoptimal b hlen hnodes hneeds hid'
  · refine ⟨fun _ => .inr ⟨_, ?_, b.solve_of_length_ne ht.toIsValid hlen⟩,
      fun h => absurd h.1 hlen⟩
    have hlen' : integer.length ≠ solution.tableau.structural := hsame.structural_eq ▸ hlen
    rw [b.solve_of_length_ne hcanonical.toIsValid hlen', hsame.structural_eq]
    rfl

end BranchAndBound

/-- One product, of which two and a half units can be made from one resource. -/
def Tableau.singleProduct : Tableau ℚ where
  rows := [[1, 1]]
  rhs := [5 / 2]
  costs := [1, 0]
  names := ["x", "s1"]
  basis := ["s1"]

namespace BranchAndBound

/-- The pivot of the product leaves the slack column as it is, so two units are found from the last
tableau as well. -/
theorem solve_again_singleProduct :
    let t := Tableau.singleProduct
    let b : BranchAndBound ℚ := {}
    t.IsCanonical ∧ t.rows.HasIdentityAt t.structural ∧
      ∃ solution, (({} : Solver).solve t).outcome = .ok solution ∧ solution.status = .optimal ∧
        solution.tableau.basis = ["x"] ∧
        (·.objective) <$> (b.solve t [true]).outcome = .ok 2 ∧
        EndAlike (b.solve solution.tableau [true]).outcome (b.solve t [true]).outcome := by
  intro t b
  have hcanonical : t.IsCanonical := by decide +kernel
  have hid : t.rows.HasIdentityAt t.structural := by decide +kernel
  have hobjective : (·.objective) <$> (b.solve t [true]).outcome = .ok 2 := by decide +kernel
  -- everything that is asked of the solution and of the second search
  have hrun : ((({} : Solver).solve t).outcome >>= fun solution =>
      (b.solve solution.tableau [true]).outcome >>= fun again =>
        pure (solution.status, solution.tableau.basis, again.objective,
          decide (solution.tableau.rows.HasIdentityAt solution.tableau.structural))) =
      .ok (.optimal, ["x"], 2, true) := by
    decide +kernel
  obtain ⟨solution, hsolve, hrun⟩ := bind_eq_ok.1 hrun
  obtain ⟨again, hagain, hrun⟩ := bind_eq_ok.1 hrun
  obtain ⟨hoptimal, hbasis, -, hid'⟩ : solution.status = .optimal ∧ solution.tableau.basis = ["x"] ∧
      again.objective = 2 ∧ decide (solution.tableau.rows.HasIdentityAt
        solution.tableau.structural) = true := by
    simpa only [pure_eq, Except.ok.injEq, Prod.mk.injEq] using hrun
  obtain ⟨found, hfound, -⟩ := map_eq_ok.1 hobjective
  refine ⟨hcanonical, hid, solution, hsolve, hoptimal, hbasis, hobjective, ?_⟩
  refine (solve_again b {} hcanonical hid hsolve hoptimal [true] ?_ ?_).1 ?_
  · rw [hfound]
    exact fun _ => nofun
  · rw [hagain]
    exact fun _ => nofun
  · exact fun h => h.2.2 (of_decide_eq_true hid')

/-- Two products in whole units are found from the tableau in which the program was given, and not
from the last one, where the search is refused. -/
theorem not_endAlike_wholeUnits :
    let t := Tableau.wholeUnits
    let b : BranchAndBound ℚ := {}
    t.IsCanonical ∧ t.rows.HasIdentityAt t.structural ∧ ∃ solution,
      (({} : Solver).solve t).outcome = .ok solution ∧ solution.status = .optimal ∧
      (·.objective) <$> (b.solve t [true, true]).outcome = .ok 23 ∧
      (b.solve solution.tableau [true, true]).outcome =
        refuse (.slackColumnChanged "s1" 2) ∧
      ¬ EndAlike (b.solve solution.tableau [true, true]).outcome
        (b.solve t [true, true]).outcome := by
  intro t b
  have hobjective : (·.objective) <$> (b.solve t [true, true]).outcome = .ok 23 := by
    decide +kernel
  have hrun : (fun solution => (solution.status,
      (·.objective) <$> (b.solve solution.tableau [true, true]).outcome)) <$>
        (({} : Solver).solve t).outcome =
      .ok (.optimal, refuse (.slackColumnChanged "s1" 2)) := by
    decide +kernel
  obtain ⟨solution, hsolve, hrun⟩ := map_eq_ok.1 hrun
  obtain ⟨hoptimal, hrefused⟩ := Prod.mk.inj hrun
  have hrefused : (b.solve solution.tableau [true, true]).outcome =
      refuse (.slackColumnChanged "s1" 2) := by
    cases h : (b.solve solution.tableau [true, true]).outcome with
    | ok again => rw [h] at hrefused; cases hrefused
    | error failure => rw [h] at hrefused; cases hrefused; rfl
  obtain ⟨found, hfound, -⟩ := map_eq_ok.1 hobjective
  refine ⟨by decide +kernel, by decide +kernel, solution, hsolve, hoptimal, hobjective,
    hrefused, ?_⟩
  rw [hrefused, hfound]
  rintro (⟨_, _, h, -⟩ | ⟨_, -, h⟩)
  · cases h
  · cases h

end BranchAndBound

end LinProg
