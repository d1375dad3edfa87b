import LinProg.Proofs.Exchange
import LinProg.Proofs.Run

/-!
# The limit on pivots

The limit on pivots cuts a run off and does nothing else. A run that halts within one limit halts in
the same way within every larger one. If no limit is large enough, the runs that are cut off at one
limit after the other are the beginnings of one endless run, in which every move is a pivot. In
exact arithmetic an endless run comes back to a tableau that it has left, since there are finitely
many.
-/

namespace LinProg

namespace Solver

variable {α : Type} [Scalar α] {s s' : Solver} {r r' : Run α}

/-- A sequence of runs each of which takes its next pivot and so becomes the following one. -/
def IsEndless (s : Solver) (f : ℕ → Run α) : Prop := ∀ n, s.Steps (f n) (f (n + 1))

theorem IsEndless.reaches {f : ℕ → Run α} (h : s.IsEndless f) {m n : ℕ} (hmn : m ≤ n) :
    Relation.ReflTransGen s.Steps (f m) (f n) := by
  induction n, hmn using Nat.le_induction with
  | base => exact .refl
  | succ n _ ih => exact ih.tail (h n)

/-- The next move does not depend on the limit on pivots. -/
theorem next_congr (h : s'.degenerateStreakLimit = s.degenerateStreakLimit) (r : Run α) :
    s'.next r = s.next r := by
  simp only [next, decideMove, select, h]

/-! ### Carrying on by one move -/

theorem walk_of_error {failure : Failure} (h : s.next r = .error failure) (n : Nat) :
    s.walk n r = ⟨r, .error failure⟩ := by
  rw [walk.eq_def]
  simp only [h]

theorem walk_of_halt {status : Status} {costs : ReducedCosts α}
    (h : s.next r = .ok (.halt status, costs)) (n : Nat) :
    s.walk n r = ⟨r, .ok (status, costs)⟩ := by
  rw [walk.eq_def]
  simp only [h]

/-- A run that halts before the first pivot gives the tableau back. -/
theorem exists_run_of_halt (s : Solver) {t : Tableau α} (ht : t.IsWellFormed) (initialRows : Rows α)
    {status : Status} {costs : ReducedCosts α} (h : s.next (.start t) = .ok (.halt status, costs)) :
    ∃ solution, (s.run t initialRows).outcome = .ok solution ∧ solution.status = status ∧
      solution.reducedCosts = costs ∧ solution.tableau = t ∧ solution.steps = [] := by
  have hwalk := walk_of_halt h s.maxIterations
  obtain ⟨solution, hsolution⟩ := s.exists_run_eq_ok ht initialRows (congrArg Halt.outcome hwalk)
  obtain ⟨-, r, hend⟩ := run_eq_ok hsolution
  obtain rfl : Run.start t = r := by rw [← hend.run_eq, hwalk]
  have hnext := hend.next_eq
  rw [h, Except.ok.injEq, Prod.mk.injEq, Move.halt.injEq] at hnext
  exact ⟨solution, hsolution, hnext.1.symm, hnext.2.symm, hend.tableau_eq, hend.steps_eq⟩

theorem walk_zero_of_pivot {p : Pivot α} {costs : ReducedCosts α}
    (h : s.next r = .ok (.pivot p, costs)) :
    s.walk 0 r = ⟨r, Outcome.refuse (.iterationLimit s.maxIterations)⟩ := by
  rw [walk.eq_def]
  simp only [h]

theorem walk_succ_of_pivot {p : Pivot α} {costs : ReducedCosts α}
    (h : s.next r = .ok (.pivot p, costs)) (n : Nat) :
    s.walk (n + 1) r =
      match r.advance p with
      | .error failure => ⟨r, .error failure⟩
      | .ok advanced => s.walk n advanced := by
  rw [walk.eq_def]
  cases hadvance : r.advance p <;> simp only [h, hadvance]

/-- A step uses up one of the pivots that may be taken. -/
theorem Steps.walk_succ (h : s.Steps r r') (n : Nat) : s.walk (n + 1) r = s.walk n r' := by
  obtain ⟨p, costs, hnext, hadvance⟩ := h
  rw [walk_succ_of_pivot hnext, hadvance]

/-- At a well-formed tableau a run halts or takes a step. -/
theorem halts_or_steps (s : Solver) (hr : r.tableau.IsWellFormed) :
    (∃ status costs, s.next r = .ok (.halt status, costs)) ∨ ∃ r', s.Steps r r' := by
  obtain ⟨move, costs, hnext⟩ := s.exists_next_eq_ok hr
  cases move with
  | halt status => exact .inl ⟨status, costs, hnext⟩
  | pivot p =>
    obtain ⟨r', hadvance⟩ := exists_advance_eq_ok hr.toIsValid (readsOff_of_next hr hnext).1
    exact .inr ⟨r', p, costs, hnext, hadvance⟩

/-- A run that may take no further pivot stays where it is. -/
theorem run_walk_zero (hr : r.tableau.IsWellFormed) : (s.walk 0 r).run = r := by
  rcases s.halts_or_steps hr with ⟨status, costs, hnext⟩ | ⟨r', p, costs, hnext, -⟩
  · rw [walk_of_halt hnext]
  · rw [walk_zero_of_pivot hnext]

/-- A run whose solution has no step ends where it begins. -/
theorem tableau_of_steps_nil {t : Tableau α} {initialRows : Rows α} {solution : Solution α}
    (h : (s.run t initialRows).outcome = .ok solution) (hsteps : solution.steps = []) :
    solution.tableau = t := by
  obtain ⟨-, last, hend⟩ := run_eq_ok h
  have htrail : last.trail = [] := List.reverse_eq_nil_iff.1 (hend.steps_eq.symm.trans hsteps)
  rw [hend.tableau_eq]
  cases hend.reaches with
  | refl => rfl
  | tail _ hstep =>
    obtain ⟨p, costs, -, hadvance⟩ := hstep
    obtain ⟨step, hlast, -⟩ := trail_of_advance hadvance
    rw [htrail] at hlast
    cases hlast

/-! ### One limit and another -/

/-- A run that may take a given number of further pivots depends on the limit only in the failure
that reports it. -/
theorem walk_congr (h : s'.degenerateStreakLimit = s.degenerateStreakLimit) (n : Nat) (r : Run α) :
    (s'.walk n r).run = (s.walk n r).run ∧
      ∀ x, (s'.walk n r).outcome = .ok x ↔ (s.walk n r).outcome = .ok x := by
  induction n generalizing r with
  | zero =>
    rcases hnext : s.next r with failure | ⟨p | status, costs⟩
    · rw [walk_of_error hnext, walk_of_error ((next_congr h r).trans hnext)]
      exact ⟨rfl, fun _ => Iff.rfl⟩
    · rw [walk_zero_of_pivot hnext, walk_zero_of_pivot ((next_congr h r).trans hnext)]
      exact ⟨rfl, fun x => by simp⟩
    · rw [walk_of_halt hnext, walk_of_halt ((next_congr h r).trans hnext)]
      exact ⟨rfl, fun _ => Iff.rfl⟩
  | succ n ih =>
    rcases hnext : s.next r with failure | ⟨p | status, costs⟩
    · rw [walk_of_error hnext, walk_of_error ((next_congr h r).trans hnext)]
      exact ⟨rfl, fun _ => Iff.rfl⟩
    · rw [walk_succ_of_pivot hnext, walk_succ_of_pivot ((next_congr h r).trans hnext)]
      cases r.advance p with
      | error failure => exact ⟨rfl, fun _ => Iff.rfl⟩
      | ok advanced => exact ih advanced
    · rw [walk_of_halt hnext, walk_of_halt ((next_congr h r).trans hnext)]
      exact ⟨rfl, fun _ => Iff.rfl⟩

/-- A run that halts does not use the pivots that it might still take. -/
theorem walk_of_ok {n m : Nat} {x : Status × ReducedCosts α} (h : (s.walk n r).outcome = .ok x)
    (hnm : n ≤ m) : s.walk m r = s.walk n r := by
  induction n generalizing r m with
  | zero =>
    rcases hnext : s.next r with failure | ⟨p | status, costs⟩
    · rw [walk_of_error hnext, walk_of_error hnext]
    · rw [walk_zero_of_pivot hnext] at h
      cases h
    · rw [walk_of_halt hnext, walk_of_halt hnext]
  | succ n ih =>
    obtain ⟨m, rfl⟩ : ∃ k, m = k + 1 := ⟨m - 1, by omega⟩
    rcases hnext : s.next r with failure | ⟨p | status, costs⟩
    · rw [walk_of_error hnext, walk_of_error hnext]
    · rw [walk_succ_of_pivot hnext] at h ⊢
      rw [walk_succ_of_pivot hnext]
      cases hadvance : r.advance p with
      | error failure => rfl
      | ok advanced =>
        rw [hadvance] at h
        exact ih h (by omega)
    · rw [walk_of_halt hnext, walk_of_halt hnext]

/-- A run that does not halt within one limit takes one more pivot within the next. -/
theorem steps_walk {n : Nat} (hr : r.tableau.IsWellFormed)
    (hcut : ∀ x, (s.walk n r).outcome ≠ .ok x) :
    s.Steps (s.walk n r).run (s.walk (n + 1) r).run := by
  induction n generalizing r with
  | zero =>
    rcases s.halts_or_steps hr with ⟨status, costs, hnext⟩ | ⟨r', hstep⟩
    · exact absurd (by rw [walk_of_halt hnext]) (hcut (status, costs))
    · rw [run_walk_zero hr, hstep.walk_succ, run_walk_zero (hstep.isWellFormed hr)]
      exact hstep
  | succ n ih =>
    rcases s.halts_or_steps hr with ⟨status, costs, hnext⟩ | ⟨r', hstep⟩
    · exact absurd (by rw [walk_of_halt hnext]) (hcut (status, costs))
    · rw [hstep.walk_succ] at hcut ⊢
      rw [hstep.walk_succ]
      exact ih (hstep.isWellFormed hr) hcut

/-- Within the next limit a run ends in the same way or one step further. -/
theorem walk_succ_cases (s : Solver) (n : Nat) (hr : r.tableau.IsWellFormed) :
    (s.walk (n + 1) r).run = (s.walk n r).run ∨
      s.Steps (s.walk n r).run (s.walk (n + 1) r).run := by
  by_cases hcut : ∀ x, (s.walk n r).outcome ≠ .ok x
  · exact .inr (steps_walk hr hcut)
  · push Not at hcut
    obtain ⟨x, hx⟩ := hcut
    exact .inl (by rw [walk_of_ok hx n.le_succ])

/-- A run halts within every sufficiently large limit, or it is endless. -/
theorem halts_or_isEndless (s : Solver) (hr : r.tableau.IsWellFormed) :
    (∃ N, ∀ n ≥ N, ∃ x, (s.walk n r).outcome = .ok x) ∨
      (∀ n x, (s.walk n r).outcome ≠ .ok x) ∧ s.IsEndless fun n => (s.walk n r).run := by
  by_cases h : ∃ N x, (s.walk N r).outcome = .ok x
  · obtain ⟨N, x, hok⟩ := h
    exact .inl ⟨N, fun n hn => ⟨x, by rw [walk_of_ok hok hn, hok]⟩⟩
  · push Not at h
    exact .inr ⟨h, fun n => steps_walk hr (h n)⟩

/-- With every sufficiently large limit on pivots a well-formed tableau has a solution, or every
limit is reached and there is an endless run. -/
theorem solves_or_isEndless (limit : Nat) {t : Tableau α} (ht : t.IsWellFormed) :
    (∃ N, ∀ n ≥ N, ∀ initialRows, ∃ solution,
        (Solver.run ⟨n, limit⟩ t initialRows).outcome = .ok solution) ∨
      (∀ n initialRows, (Solver.run ⟨n, limit⟩ t initialRows).outcome =
          Outcome.refuse (.iterationLimit n)) ∧
        ∃ f : ℕ → Run α, f 0 = .start t ∧ IsEndless ⟨0, limit⟩ f := by
  have hcongr : ∀ n x, ((Solver.walk ⟨n, limit⟩ n (.start t)).outcome = .ok x ↔
      (Solver.walk ⟨0, limit⟩ n (.start t)).outcome = .ok x) := by
    intro n x
    have hlimit : (⟨n, limit⟩ : Solver).degenerateStreakLimit =
        (⟨0, limit⟩ : Solver).degenerateStreakLimit := rfl
    exact (walk_congr hlimit n (.start t)).2 x
  rcases halts_or_isEndless ⟨0, limit⟩ (r := .start t) ht with ⟨N, hhalts⟩ | ⟨hcut, hendless⟩
  · refine .inl ⟨N, fun n hn initialRows => ?_⟩
    obtain ⟨⟨status, costs⟩, hok⟩ := hhalts n hn
    exact exists_run_eq_ok _ ht initialRows ((hcongr n _).2 hok)
  · refine .inr ⟨fun n initialRows => ?_, _, ?_, hendless⟩
    · rcases walk_outcome ⟨n, limit⟩ n (r := .start t) ht with ⟨status, costs, hok⟩ | hlimit
      · exact absurd ((hcongr n _).1 hok) (hcut n _)
      · exact run_eq_error _ ht initialRows hlimit
    · exact run_walk_zero (r := .start t) ht

/-! ### Exact arithmetic -/

/-- An endless run comes back to a tableau within every infinite set of its moments. -/
theorem IsEndless.exists_tableau_eq {s : Solver} {f : ℕ → Run ℚ} (h : s.IsEndless f)
    (h₀ : (f 0).tableau.IsCanonical) {S : Set ℕ} (hS : S.Infinite) :
    ∃ m ∈ S, ∃ n ∈ S, m < n ∧ (f m).tableau = (f n).tableau := by
  refine hS.exists_lt_map_eq_of_mapsTo (f := fun n => (f n).tableau) (fun n _ => ?_)
    (Tableau.finite_isCanonical (f 0).tableau)
  exact (isCanonical_of_reflTransGen (h.reaches n.zero_le) h₀).symm

/-- A canonical tableau without negative right-hand sides and reduced costs is given back as
optimal. -/
theorem exists_run_of_nonneg (s : Solver) {t : Tableau ℚ} (ht : t.IsCanonical)
    (hrhs : ∀ v ∈ t.rhs, 0 ≤ v) (hreduced : ∀ j < t.width, 0 ≤ t.reducedAt j)
    (initialRows : Rows ℚ) :
    ∃ solution, (s.run t initialRows).outcome = .ok solution ∧ solution.status = .optimal ∧
      solution.steps = [] ∧ solution.tableau = t ∧ solution.objective = t.basicObjective := by
  obtain ⟨costs, hcosts, -⟩ := ReducedCosts.exists_compute_eq_ok ht.toIsWellFormed
  have hoptimal : Standing.classify t.rhs costs.reduced = .optimal := by
    refine Standing.classify_eq_optimal.2 ⟨fun v hv => isNegative_eq_false_iff.2 (hrhs v hv), ?_⟩
    intro v hv
    obtain ⟨j, hj, rfl⟩ := (ReducedCosts.mem_reduced ht.toIsWellFormed hcosts).1 hv
    exact hreduced j hj
  have hnext : s.next (.start t) = .ok (.halt .optimal, costs) := by
    rw [next, Run.start, hcosts, Outcome.ok_bind, decideMove, hoptimal]
    rfl
  obtain ⟨solution, hsolution, hstatus, hreport, htableau, hsteps⟩ :=
    s.exists_run_of_halt ht.toIsWellFormed initialRows hnext
  refine ⟨solution, hsolution, hstatus, hsteps, htableau, ?_⟩
  rw [Solution.objective, hreport, ReducedCosts.objective_eq ht.toIsWellFormed hcosts]

end Solver

end LinProg
