import Mathlib.Data.List.TakeWhile
import LinProg.Arithmetic.Double
import LinProg.Proofs.Run

/-!
# The record of a run

The steps that a solution reports are a certificate of its run. Each step names a row and a column;
if the pivots there are taken again, one after the other from the tableau that was solved, with
element and column read off the tableau that has been reached, the last tableau comes out as it is
reported. At each of these tableaux the step is the one that the rules ask for, where the streak
that decides between the two improving rules is read off the steps before. Nothing here depends on
the arithmetic, so that doubles are repeated bit by bit.
-/

namespace LinProg

variable {α : Type} [Scalar α]

/-! ### Taking the recorded pivots again -/

namespace Step

/-- The step left the objective as it was: it does not repair infeasibility, and the ratio of its
row is read as zero. The row of a step that a run has taken has a ratio, by
`Solver.exists_ratio_of_next`, so the last case does not arise. -/
def isDegenerate (step : Step α) : Bool :=
  step.rule != .infeasibility &&
    match step.ratios[step.row]? with
    | some (some ratio) => Scalar.isZero ratio
    | _ => false

/-- The pivot in the row and column of the step, with its element and its column read off a
tableau. -/
def pivotIn (step : Step α) (t : Tableau α) : Outcome (Pivot α) := do
  let columnVector ← t.rows.column step.column
  let element ← Outcome.inRange columnVector[step.row]?
  return { rule := step.rule, row := step.row, column := step.column, element, columnVector,
           ratios := step.ratios }

end Step

namespace Tableau

/-- The tableau after the pivot of a step. -/
def repeatStep (t : Tableau α) (step : Step α) : Outcome (Tableau α) := do
  (← step.pivotIn t).apply t

/-- The tableau after the pivots of some steps, one after the other. -/
def replay (t : Tableau α) (steps : List (Step α)) : Outcome (Tableau α) :=
  steps.foldlM repeatStep t

@[simp] theorem replay_nil (t : Tableau α) : t.replay [] = .ok t := rfl

theorem replay_concat (t : Tableau α) (steps : List (Step α)) (step : Step α) :
    t.replay (steps ++ [step]) = t.replay steps >>= fun reached => reached.repeatStep step := by
  rw [replay, List.foldlM_append]
  refine bind_congr fun reached => ?_
  rw [List.foldlM_cons, bind_congr fun _ => List.foldlM_nil, bind_pure]

end Tableau

namespace Pivot

variable {p : Pivot α} {t : Tableau α} {step : Step α}

theorem isDegenerate_step (h : p.step t = .ok step) : step.isDegenerate = p.isDegenerate := by
  obtain ⟨entering, leaving, -, -, rfl⟩ := step_eq_ok h
  rfl

omit [Scalar α] in
/-- A pivot that is read off a tableau can be read off it again from its record. -/
theorem pivotIn_step (hp : p.ReadsOff t) (h : p.step t = .ok step) : step.pivotIn t = .ok p := by
  obtain ⟨entering, leaving, -, -, rfl⟩ := step_eq_ok h
  rw [Step.pivotIn, hp.column_eq, Outcome.ok_bind, hp.element_eq]
  rfl

end Pivot

/-! ### Long streaks -/

namespace Solver

variable {s : Solver}

/-- The steps end in degenerate ones, at least as many as the limit on the streak. -/
def IsLongStreak (s : Solver) (steps : List (Step α)) : Prop :=
  ∃ recent, recent <:+ steps ∧ s.degenerateStreakLimit ≤ recent.length ∧
    ∀ step ∈ recent, step.isDegenerate = true

/-- The degenerate steps at the end are the first ones of the trail, which has the latest step
first. -/
theorem isLongStreak_reverse {trail : List (Step α)} :
    s.IsLongStreak trail.reverse ↔
      s.degenerateStreakLimit ≤ (trail.takeWhile Step.isDegenerate).length := by
  constructor
  · rintro ⟨recent, hrecent, hlimit, hdegenerate⟩
    obtain ⟨older, htrail⟩ : recent.reverse <+: trail := by
      rw [← List.reverse_suffix, List.reverse_reverse]
      exact hrecent
    have hkept : ∀ step ∈ recent.reverse, step.isDegenerate = true := fun step hstep =>
      hdegenerate step (List.mem_reverse.1 hstep)
    rw [← htrail, List.takeWhile_append_of_pos hkept, List.length_append, List.length_reverse]
    exact hlimit.trans (Nat.le_add_right _ _)
  · intro hlimit
    refine ⟨(trail.takeWhile Step.isDegenerate).reverse, ?_, ?_, fun step hstep => ?_⟩
    · exact List.reverse_suffix.2 (List.takeWhile_prefix _)
    · rwa [List.length_reverse]
    · exact List.mem_takeWhile_imp (List.mem_reverse.1 hstep)

end Solver

/-! ### The invariant -/

/-- A step is the one to be taken in a tableau after some steps. Its element and its variables are
those of the tableau. It repairs the row of least negative right-hand side, if there is one;
otherwise a long streak of degenerate steps before it decides its rule. -/
structure Step.IsTakenIn (s : Solver) (before : List (Step α)) (t : Tableau α) (step : Step α) :
    Prop where
  element_eq : ∃ entries, t.rows.column step.column = .ok entries ∧
    entries[step.row]? = some step.element
  entering_eq : t.names[step.column]? = some step.entering
  leaving_eq : t.basis[step.row]? = some step.leaving
  rule_cases : ∃ costs, ReducedCosts.compute t = .ok costs ∧
    (step.rule = .infeasibility ↔
      ∃ row, Standing.classify t.rhs costs.reduced = .infeasible row) ∧
    (∀ row, Standing.classify t.rhs costs.reduced = .infeasible row → step.row = row) ∧
    ((Standing.classify t.rhs costs.reduced).isFeasible = true →
      (step.rule = .bland ↔ s.IsLongStreak before) ∧
        (step.rule = .dantzig ↔ ¬ s.IsLongStreak before))

/-- What a run has recorded leads from the tableau that it began with to the one that it has
reached, and the streak is that of the recorded steps. -/
structure Run.Retraces (s : Solver) (t : Tableau α) (r : Run α) : Prop where
  replay_eq : t.replay r.trail.reverse = .ok r.tableau
  streak_eq : r.streak = (r.trail.takeWhile Step.isDegenerate).length
  taken : ∀ step before, step :: before <:+ r.trail →
    ∃ reached, t.replay before.reverse = .ok reached ∧ step.IsTakenIn s before.reverse reached

namespace Solver

variable {s : Solver} {t : Tableau α} {r r' : Run α}

theorem retraces_start (s : Solver) (t : Tableau α) : (Run.start t).Retraces s t where
  replay_eq := Tableau.replay_nil t
  streak_eq := rfl
  taken step before h := by simp [Run.start] at h

/-- The step that is recorded is the one to be taken. -/
theorem isTakenIn_of_next {p : Pivot α} {costs : ReducedCosts α} {step : Step α}
    (hr : r.Retraces s t) (hp : p.ReadsOff r.tableau) (hnext : s.next r = .ok (.pivot p, costs))
    (hstep : p.step r.tableau = .ok step) : step.IsTakenIn s r.trail.reverse r.tableau := by
  obtain ⟨hcosts, hrule⟩ := rule_of_next hnext
  have hstreak : s.IsLongStreak r.trail.reverse ↔ s.degenerateStreakLimit ≤ r.streak := by
    rw [isLongStreak_reverse, hr.streak_eq]
  obtain ⟨entering, leaving, hentering, hleaving, rfl⟩ := Pivot.step_eq_ok hstep
  refine ⟨⟨p.columnVector, hp.column_eq, hp.element_eq⟩, hentering, hleaving, costs, hcosts, ?_⟩
  rcases hrule with ⟨row, hrow, hrule, hprow⟩ | ⟨hfeasible, hrule⟩
  · refine ⟨iff_of_true hrule ⟨row, hrow⟩, fun row' hrow' => ?_, fun hfeasible => ?_⟩
    · rw [hrow, Standing.infeasible.injEq] at hrow'
      exact hprow.trans hrow'
    · rw [hrow] at hfeasible
      cases hfeasible
  · have hnone : ∀ row, Standing.classify r.tableau.rhs costs.reduced ≠ .infeasible row := by
      intro row hrow
      rw [hrow] at hfeasible
      cases hfeasible
    refine ⟨iff_of_false ?_ fun ⟨row, hrow⟩ => hnone row hrow,
      fun row hrow => absurd hrow (hnone row), fun _ => ?_⟩
    · rcases hrule with ⟨-, hrule⟩ | ⟨-, hrule⟩ <;> simp [hrule]
    · rw [hstreak]
      rcases hrule with ⟨hlong, hrule⟩ | ⟨hshort, hrule⟩
      · simp [hrule, hlong]
      · simp [hrule, hshort]

/-- A step is recorded. -/
theorem Steps.retraces (h : s.Steps r r') (hwf : r.tableau.IsWellFormed) (hr : r.Retraces s t) :
    r'.Retraces s t := by
  obtain ⟨p, costs, hnext, hadvance⟩ := h
  obtain ⟨hp, -⟩ := readsOff_of_next hwf hnext
  have happly := apply_of_advance hadvance
  have hstreak := streak_of_advance hadvance
  obtain ⟨step, hstep, htrail⟩ := step_of_advance hadvance
  constructor
  · rw [htrail, List.reverse_cons, Tableau.replay_concat, hr.replay_eq, Outcome.ok_bind,
      Tableau.repeatStep, Pivot.pivotIn_step hp hstep, Outcome.ok_bind, happly]
  · rw [htrail, List.takeWhile_cons, Pivot.isDegenerate_step hstep, hstreak, hr.streak_eq]
    cases p.isDegenerate <;> rfl
  · intro step' before hsuffix
    rw [htrail, List.suffix_cons_iff] at hsuffix
    rcases hsuffix with heq | hsuffix
    · cases heq
      exact ⟨r.tableau, hr.replay_eq, isTakenIn_of_next hr hp hnext hstep⟩
    · exact hr.taken step' before hsuffix

theorem retraces_of_reflTransGen (ht : t.IsWellFormed)
    (h : Relation.ReflTransGen s.Steps (.start t) r) : r.Retraces s t := by
  suffices hinvariant : r.tableau.IsWellFormed ∧ r.Retraces s t from hinvariant.2
  induction h with
  | refl => exact ⟨ht, retraces_start s t⟩
  | tail _ hlast ih => exact ⟨hlast.isWellFormed ih.1, hlast.retraces ih.1 ih.2⟩

end Solver

/-! ### The record -/

/-- The steps of a solution lead from the tableau that was solved to the last one, each step is the
one to be taken in the tableau that the steps before it lead to, and the parts of the tableau that
no pivot changes are reported as they were. -/
structure Solution.Records (s : Solver) (t : Tableau α) (solution : Solution α) : Prop where
  replay_eq : t.replay solution.steps = .ok solution.tableau
  taken : ∀ before step after, solution.steps = before ++ step :: after →
    ∃ reached, t.replay before = .ok reached ∧ step.IsTakenIn s before reached
  names_eq : solution.tableau.names = t.names
  costs_eq : solution.tableau.costs = t.costs
  initialRows_eq : solution.initialRows = t.rows

/-- An order that can be met in one way only, which takes up all of the capacity. -/
def Tableau.tightOrder : Tableau Float where
  rows := [[-1, 2, 1, 0, 0], [2, 2, 0, 1, 0], [1, -1, 0, 0, 1]]
  rhs := [-1, 2, 1]
  costs := [2, 1, 0, 0, 0]
  names := ["x", "y", "s1", "s2", "s3"]
  basis := ["s1", "s2", "s3"]

namespace Solver

/-- Whatever the status with which a tableau is solved, the steps are a record of the run. -/
theorem records_of_solve (s : Solver) {t : Tableau α} {solution : Solution α}
    (h : (s.solve t).outcome = .ok solution) : solution.Records s t := by
  obtain ⟨ht, r, hend⟩ := run_eq_ok h
  have hr : r.Retraces s t := retraces_of_reflTransGen ht hend.reaches
  obtain ⟨hnames, hcosts, -⟩ := names_costs_height_of_reflTransGen hend.reaches ht
  refine ⟨?_, fun before step after hsteps => ?_, ?_, ?_, hend.initialRows_eq⟩
  · rw [hend.steps_eq, hend.tableau_eq]
    exact hr.replay_eq
  · have htrail : r.trail = after.reverse ++ step :: before.reverse := by
      rw [← List.reverse_reverse r.trail, ← hend.steps_eq, hsteps]
      simp
    have htaken := hr.taken step before.reverse ⟨after.reverse, htrail.symm⟩
    rwa [List.reverse_reverse] at htaken
  · rw [hend.tableau_eq]
    exact hnames
  · rw [hend.tableau_eq]
    exact hcosts

/-- The order is met by a repair, and the capacity, taken up by then, stops the two pivots after
it. -/
theorem records_of_solve_tightOrder :
    ∃ solution, ((⟨20, 1⟩ : Solver).solve .tightOrder).outcome = .ok solution ∧
      solution.steps.map (·.rule) = [.infeasibility, .dantzig, .bland] ∧
      solution.Records ⟨20, 1⟩ .tightOrder := by
  have hrules : (fun solution : Solution Float => solution.steps.map (·.rule)) <$>
      ((⟨20, 1⟩ : Solver).solve .tightOrder).outcome = .ok [.infeasibility, .dantzig, .bland] := by
    decide +kernel
  obtain ⟨solution, hsolution, hrules⟩ := Outcome.map_eq_ok.1 hrules
  exact ⟨solution, hsolution, hrules, records_of_solve _ hsolution⟩

end Solver

end LinProg
