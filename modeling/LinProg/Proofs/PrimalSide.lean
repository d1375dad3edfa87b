import LinProg.Proofs.Columns
import LinProg.Proofs.Improvement

/-!
# Runs on the primal side

A run repairs a row exactly as long as some right-hand side is negative. The ratio test protects
every row, so once no right-hand side is negative none becomes negative, and no repair follows a
pivot that improves. Such a pivot never lowers the objective, and leaves it where it is exactly if
it is degenerate. An optimal tableau has no negative right-hand side, and it keeps its right-hand
sides with other costs, with further variables and with other coefficients. So after these revisions
nothing is repaired, and no row is found infeasible.
-/

namespace LinProg

/-- Two products whose output is to be as large as possible, with a demand that has to be met. -/
def Tableau.largestOutput : Tableau ℚ where
  rows := [[-1, -2, 1, 0], [1, 1, 0, 1]]
  rhs := [-4, 5]
  costs := [1, 1, 0, 0]
  names := ["x", "y", "s1", "s2"]
  basis := ["s1", "s2"]

/-! ### Right-hand sides from zero on -/

namespace Tableau

variable {t : Tableau ℚ}

/-- No right-hand side of the tableau is negative. -/
def IsPrimalFeasible (t : Tableau ℚ) : Prop := ∀ v ∈ t.rhs, 0 ≤ v

theorem isPrimalFeasible_iff (ht : t.IsValid) :
    t.IsPrimalFeasible ↔ ∀ i < t.height, 0 ≤ t.rhsAt i :=
  ht.forall_mem_rhs

end Tableau

/-! ### Runs -/

/-- What holds of a run from a tableau and of the rules that it has recorded, the latest first: no
repair comes after a tableau without negative right-hand sides, and so none after a pivot that
improves. -/
structure Run.RepairsFirst (t : Tableau ℚ) (r : Run ℚ) : Prop where
  isCanonical : r.tableau.IsCanonical
  isPrimalFeasible_of_start : t.IsPrimalFeasible → r.tableau.IsPrimalFeasible
  isPrimalFeasible : ∀ step ∈ r.trail, step.rule ≠ .infeasibility → r.tableau.IsPrimalFeasible
  rule_ne : t.IsPrimalFeasible → ∀ step ∈ r.trail, step.rule ≠ .infeasibility
  pairwise : r.trail.Pairwise fun later step => step.rule ≠ .infeasibility →
    later.rule ≠ .infeasibility

namespace Solver

variable {s : Solver} {t : Tableau ℚ} {r r' : Run ℚ} {p : Pivot ℚ} {costs : ReducedCosts ℚ}

/-- A pivot repairs a row exactly if some right-hand side is negative. -/
theorem rule_ne_iff (hr : r.tableau.IsCanonical) (hnext : s.next r = .ok (.pivot p, costs)) :
    p.rule ≠ .infeasibility ↔ r.tableau.IsPrimalFeasible := by
  rw [Tableau.isPrimalFeasible_iff hr.toIsValid]
  constructor
  · intro hrule
    obtain ⟨-, ⟨row, -, hrepair, -⟩ | ⟨hfeasible, -⟩⟩ := rule_of_next hnext
    · exact absurd hrepair hrule
    · exact mem_rhs_nonneg hr.toIsValid (Standing.isFeasible_classify.1 hfeasible)
  · intro hrhs
    exact (improves_of_next hr hrhs hnext).1

/-- A run stays without negative right-hand sides. -/
theorem isPrimalFeasible_of_reflTransGen (h : Relation.ReflTransGen s.Steps r r')
    (hr : r.tableau.IsCanonical) (hrhs : r.tableau.IsPrimalFeasible) :
    r'.tableau.IsPrimalFeasible := by
  rw [Tableau.isPrimalFeasible_iff (isCanonical_of_reflTransGen h hr).1.toIsValid]
  exact rhsAt_nonneg_of_reflTransGen h hr ((Tableau.isPrimalFeasible_iff hr.toIsValid).1 hrhs)

/-- A pivot that improves does not lower the objective, and keeps it exactly if it is degenerate. -/
theorem basicObjective_of_next (hr : r.tableau.IsCanonical)
    (hnext : s.next r = .ok (.pivot p, costs)) (hadvance : r.advance p = .ok r')
    (hrule : p.rule ≠ .infeasibility) :
    r.tableau.basicObjective ≤ r'.tableau.basicObjective ∧
      (r'.tableau.basicObjective = r.tableau.basicObjective ↔ p.isDegenerate = true) := by
  have hrhs := (Tableau.isPrimalFeasible_iff hr.toIsValid).1 ((rule_ne_iff hr hnext).1 hrule)
  obtain ⟨-, himproves⟩ := improves_of_next hr hrhs hnext
  have happly := apply_of_advance hadvance
  exact ⟨himproves.basicObjective_le hr happly hrhs,
    (himproves.basicObjective_eq_iff hr happly).trans himproves.isDegenerate_iff.symm⟩

/-- A step keeps to the order of the rules. -/
theorem Steps.repairsFirst (h : s.Steps r r') (hr : r.RepairsFirst t) : r'.RepairsFirst t := by
  have hcanonical := hr.isCanonical
  have hkeeps : r.tableau.IsPrimalFeasible → r'.tableau.IsPrimalFeasible :=
    isPrimalFeasible_of_reflTransGen (.single h) hcanonical
  have hcanonical' := (h.isCanonical hcanonical).1
  obtain ⟨p, costs, hnext, hadvance⟩ := h
  obtain ⟨step, htrail, hrule⟩ := trail_of_advance hadvance
  have hiff := rule_ne_iff hcanonical hnext
  refine ⟨hcanonical', fun ht => hkeeps (hr.isPrimalFeasible_of_start ht), ?_, fun ht => ?_, ?_⟩
  · rw [htrail, List.forall_mem_cons, hrule]
    exact ⟨fun hne => hkeeps (hiff.1 hne),
      fun earlier hearlier hne => hkeeps (hr.isPrimalFeasible earlier hearlier hne)⟩
  · rw [htrail, List.forall_mem_cons, hrule]
    exact ⟨hiff.2 (hr.isPrimalFeasible_of_start ht), hr.rule_ne ht⟩
  · rw [htrail, List.pairwise_cons, hrule]
    exact ⟨fun earlier hearlier hne => hiff.2 (hr.isPrimalFeasible earlier hearlier hne),
      hr.pairwise⟩

theorem repairsFirst_of_reflTransGen (h : Relation.ReflTransGen s.Steps (.start t) r)
    (ht : t.IsCanonical) : r.RepairsFirst t := by
  induction h with
  | refl =>
    have hnone : ∀ step ∈ (Run.start t).trail, False := fun _ hstep => nomatch hstep
    exact ⟨ht, id, fun step hstep => (hnone step hstep).elim,
      fun _ step hstep => (hnone step hstep).elim, .nil⟩
  | tail _ hstep ih => exact hstep.repairsFirst ih

/-! ### What a reader is told of all runs -/

/-- Every run from the tableau climbs once it is feasible. When no right-hand side is negative, none
is negative later. A pivot that improves does not lower the objective, and keeps it exactly if it is
degenerate. No recorded repair comes after a pivot that improves. -/
structure Climbs (s : Solver) (t : Tableau ℚ) : Prop where
  isPrimalFeasible : ∀ r r', Relation.ReflTransGen s.Steps (.start t) r →
    r.tableau.IsPrimalFeasible → Relation.ReflTransGen s.Steps r r' → r'.tableau.IsPrimalFeasible
  objective_le : ∀ r r' p costs, Relation.ReflTransGen s.Steps (.start t) r →
    s.next r = .ok (.pivot p, costs) → r.advance p = .ok r' → p.rule ≠ .infeasibility →
      ∃ costs', ReducedCosts.compute r'.tableau = .ok costs' ∧
        costs.objective ≤ costs'.objective ∧
        (costs'.objective = costs.objective ↔ p.isDegenerate = true)
  pairwise_steps : ∀ initialRows solution, (s.run t initialRows).outcome = .ok solution →
    solution.steps.Pairwise fun step later => step.rule ≠ .infeasibility →
      later.rule ≠ .infeasibility

/-- Every run from the tableau is on the primal side: no right-hand side is negative at any time, no
pivot repairs a row, and no row is found infeasible. -/
structure StaysPrimal (s : Solver) (t : Tableau ℚ) : Prop where
  isPrimalFeasible : ∀ r, Relation.ReflTransGen s.Steps (.start t) r → r.tableau.IsPrimalFeasible
  rule_ne : ∀ r p costs, Relation.ReflTransGen s.Steps (.start t) r →
    s.next r = .ok (.pivot p, costs) → p.rule ≠ .infeasibility
  /-- The solution of a run records no repair, and it is not infeasible. -/
  of_run : ∀ initialRows solution, (s.run t initialRows).outcome = .ok solution →
    (∀ step ∈ solution.steps, step.rule ≠ .infeasibility) ∧
      ∀ row name, solution.status ≠ .infeasible row name

/-- A canonical tableau is run upwards. -/
theorem climbs (s : Solver) (ht : t.IsCanonical) : s.Climbs t where
  isPrimalFeasible r r' hreaches hrhs hlater :=
    isPrimalFeasible_of_reflTransGen hlater (isCanonical_of_reflTransGen hreaches ht).1 hrhs
  objective_le r r' p costs hreaches hnext hadvance hrule := by
    have hr := (isCanonical_of_reflTransGen hreaches ht).1
    have hr' := (Steps.isCanonical ⟨p, costs, hnext, hadvance⟩ hr).1
    obtain ⟨hcosts, -⟩ := next_cases hnext
    obtain ⟨costs', hcosts', -⟩ := ReducedCosts.exists_compute_eq_ok hr'.toIsWellFormed
    refine ⟨costs', hcosts', ?_⟩
    rw [ReducedCosts.objective_eq hr.toIsWellFormed hcosts,
      ReducedCosts.objective_eq hr'.toIsWellFormed hcosts']
    exact basicObjective_of_next hr hnext hadvance hrule
  pairwise_steps initialRows solution h := by
    obtain ⟨-, last, hend⟩ := run_eq_ok h
    rw [hend.steps_eq, List.pairwise_reverse]
    exact (repairsFirst_of_reflTransGen hend.reaches ht).pairwise

/-- A canonical tableau without negative right-hand sides is run on the primal side. -/
theorem staysPrimal (s : Solver) (ht : t.IsCanonical) (hrhs : t.IsPrimalFeasible) :
    s.StaysPrimal t where
  isPrimalFeasible r hreaches := isPrimalFeasible_of_reflTransGen hreaches ht hrhs
  rule_ne r p costs hreaches hnext := by
    refine (rule_ne_iff (isCanonical_of_reflTransGen hreaches ht).1 hnext).2 ?_
    exact isPrimalFeasible_of_reflTransGen hreaches ht hrhs
  of_run initialRows solution h := by
    obtain ⟨-, last, hend⟩ := run_eq_ok h
    refine ⟨fun step hstep => ?_, fun row name hstatus => ?_⟩
    · rw [hend.steps_eq, List.mem_reverse] at hstep
      exact (repairsFirst_of_reflTransGen hend.reaches ht).rule_ne hrhs step hstep
    · rcases status_of_run ht ((Tableau.isPrimalFeasible_iff ht.toIsValid).1 hrhs) h with
        hoptimal | ⟨column, name', hunbounded⟩
      · rw [hstatus] at hoptimal
        cases hoptimal
      · rw [hstatus] at hunbounded
        cases hunbounded

/-- An optimal solution has no negative right-hand side. -/
theorem isPrimalFeasible_of_run (ht : t.IsCanonical) {initialRows : Rows ℚ} {solution : Solution ℚ}
    (h : (s.run t initialRows).outcome = .ok solution) (hoptimal : solution.status = .optimal) :
    solution.tableau.IsPrimalFeasible := by
  rw [Tableau.isPrimalFeasible_iff (isCanonical_of_run ht h).1.toIsValid]
  exact (nonneg_of_run ht h hoptimal).1

end Solver

/-! ### Revisions that keep the right-hand sides -/

/-- The request leaves the right-hand sides of the tableau as they are. -/
def Request.KeepsRhs : Request ℚ → Prop
  | .objectiveChange _ | .newVariables .. | .coefficientChange _ => True
  | .rhsChange _ | .newConstraints .. => False

namespace Snapshot

variable {snapshot : Snapshot ℚ} {request : Request ℚ} {revision : Revision ℚ}

/-- Other costs, further variables and other coefficients leave a canonical tableau canonical, and
its right-hand sides as they are. -/
theorem isCanonical_of_keepsRhs (hs : snapshot.IsCaptured) (ht : snapshot.tableau.IsCanonical)
    (hkeeps : request.KeepsRhs) (h : snapshot.apply request = .ok revision) :
    revision.tableau.IsCanonical ∧ revision.tableau.rhs = snapshot.tableau.rhs := by
  cases request with
  | objectiveChange costs =>
    obtain ⟨hwidth, rfl⟩ := changeObjective_eq_ok.1 h
    exact ⟨⟨⟨ht.replaceCosts hwidth.symm, ht.basis_subset⟩, ht.unit_basicColumn⟩, rfl⟩
  | newVariables columns costs names =>
    obtain ⟨hcolumns, hcosts, hnames, transformed, hproduct, -, rfl⟩ := (addVariables_eq_ok hs).1 h
    obtain ⟨hshape, -⟩ := (hs.isValid.mul_basisInverse hs.basisInverse_eq hcolumns).1 hproduct
    exact ⟨ht.withColumns hshape hcosts hnames, rfl⟩
  | coefficientChange rows =>
    refine ⟨isCanonical_changeCoefficients hs ht h, ?_⟩
    obtain ⟨changed, rfl, -⟩ := hasShape_changed hs ht.toIsWellFormed h
    rfl
  | rhsChange rhs => exact hkeeps.elim
  | newConstraints rows rhs costs => exact hkeeps.elim

end Snapshot

namespace Solver

/-- A canonical tableau is run upwards. From the snapshot of an optimal solution of it, a revision
by other costs, further variables or other coefficients is run on the primal side, with any solver:
the update records no repair, and it is not infeasible. -/
theorem run_climbs (s : Solver) {t : Tableau ℚ} (ht : t.IsCanonical) :
    s.Climbs t ∧
      ∀ initialRows solution snapshot, (s.run t initialRows).outcome = .ok solution →
        solution.snapshot = .ok snapshot → ∀ (s' : Solver) (request : Request ℚ), request.KeepsRhs →
          (∀ revision, snapshot.apply request = .ok revision → s'.StaysPrimal revision.tableau) ∧
          ∀ child, (s'.update snapshot request).outcome = .ok child →
            (∀ step ∈ child.steps, step.rule ≠ .infeasibility) ∧
              ∀ row name, child.status ≠ .infeasible row name := by
  refine ⟨climbs s ht, fun initialRows solution snapshot h hsnapshot s' request hkeeps => ?_⟩
  obtain ⟨hoptimal, htableau, -, hcaptured⟩ := Solution.snapshot_eq_ok.1 hsnapshot
  have hcanonical := (isCanonical_of_run ht h).1
  have hrhs := isPrimalFeasible_of_run ht h hoptimal
  rw [← htableau] at hcanonical hrhs
  have hstays : ∀ revision, snapshot.apply request = .ok revision →
      s'.StaysPrimal revision.tableau := by
    intro revision hrevision
    obtain ⟨hrevised, hsame⟩ :=
      Snapshot.isCanonical_of_keepsRhs hcaptured hcanonical hkeeps hrevision
    refine staysPrimal s' hrevised ?_
    rw [Tableau.IsPrimalFeasible, hsame]
    exact hrhs
  refine ⟨hstays, fun child hchild => ?_⟩
  obtain ⟨revision, hrevision, hresolve⟩ := Recorded.andThen_eq_ok.1 hchild
  rw [Snapshot.revise, Recorded.outcome_andEvent] at hrevision
  exact (hstays revision hrevision).of_run _ child hresolve

/-- The demand is met by a repair, and from there the output grows by two pivots. When the second
product counts twice, one more pivot exchanges the products. -/
theorem run_climbs_largestOutput :
    let t := Tableau.largestOutput
    let s : Solver := {}
    t.IsCanonical ∧ s.Climbs t ∧ ∃ solution snapshot revision child,
      (s.run t t.rows).outcome = .ok solution ∧
      solution.steps.map (·.rule) = [.infeasibility, .dantzig, .dantzig] ∧
      solution.snapshot = .ok snapshot ∧
      snapshot.apply (.objectiveChange [1, 2, 0, 0]) = .ok revision ∧
      s.StaysPrimal revision.tableau ∧
      (s.update snapshot (.objectiveChange [1, 2, 0, 0])).outcome = .ok child ∧
      child.steps.map (·.rule) = [.dantzig] ∧
      (∀ step ∈ child.steps, step.rule ≠ .infeasibility) ∧
      ∀ row name, child.status ≠ .infeasible row name := by
  intro t s
  have hcanonical : t.IsCanonical := by decide +kernel
  have hchain : (do
      let solution ← (s.run t t.rows).outcome
      let snapshot ← solution.snapshot
      let revision ← snapshot.apply (.objectiveChange [1, 2, 0, 0])
      let child ← (s.update snapshot (.objectiveChange [1, 2, 0, 0])).outcome
      return (solution.steps.map (·.rule), child.steps.map (·.rule)) :
        Outcome (List PivotRule × List PivotRule)) =
      .ok ([.infeasibility, .dantzig, .dantzig], [.dantzig]) := by
    decide +kernel
  obtain ⟨solution, hsolution, hchain⟩ := Outcome.bind_eq_ok.1 hchain
  obtain ⟨snapshot, hsnapshot, hchain⟩ := Outcome.bind_eq_ok.1 hchain
  obtain ⟨revision, hrevision, hchain⟩ := Outcome.bind_eq_ok.1 hchain
  obtain ⟨child, hchild, hchain⟩ := Outcome.bind_eq_ok.1 hchain
  rw [Outcome.pure_eq, Except.ok.injEq, Prod.mk.injEq] at hchain
  obtain ⟨hclimbs, hupdates⟩ := run_climbs s hcanonical
  obtain ⟨hstays, hchildren⟩ := hupdates _ solution snapshot hsolution hsnapshot s
    (.objectiveChange [1, 2, 0, 0]) trivial
  obtain ⟨hrules, hstatus⟩ := hchildren child hchild
  exact ⟨hcanonical, hclimbs, solution, snapshot, revision, child, hsolution, hchain.1, hsnapshot,
    hrevision, hstays revision hrevision, hchild, hchain.2, hrules, hstatus⟩

end Solver

end LinProg
