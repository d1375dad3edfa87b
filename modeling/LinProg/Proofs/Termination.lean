import Mathlib.Data.Set.Finite.Lattice
import LinProg.Proofs.Bland
import LinProg.Proofs.Limit

/-!
# Runs of feasible tableaux end

A run that begins without negative right-hand sides stays without them, and its objective never
falls. There are finitely many canonical tableaux of the program, so the objective can grow only
finitely often. After that every pivot is degenerate, the streak becomes longer with each of them,
and once it has reached its limit the rule that excludes cycles is used for good.
-/

namespace LinProg

/-- A program on which the rule of least reduced cost alone runs in a circle of degenerate
pivots. -/
def Tableau.bealeProgram : Tableau ℚ where
  rows := [[1/4, -8, -1, 9, 1, 0, 0], [1/2, -12, -1/2, 3, 0, 1, 0], [0, 0, 1, 0, 0, 0, 1]]
  rhs := [0, 0, 1]
  costs := [3/4, -20, 1/2, -6, 0, 0, 0]
  names := ["x4", "x5", "x6", "x7", "s1", "s2", "s3"]
  basis := ["s1", "s2", "s3"]

namespace Solver

variable {s : Solver} {r r' : Run ℚ} {f : ℕ → Run ℚ}

/-! ### An endless run -/

section

variable {p : ℕ → Pivot ℚ} (h : s.IsEndless f) (h₀ : (f 0).tableau.IsCanonical)
  (hrhs : ∀ i < (f 0).tableau.height, 0 ≤ (f 0).tableau.rhsAt i)
  (hp : ∀ n, s.Improves (f n) (f (n + 1)) (p n))

include h h₀ hrhs hp

/-- The objective of an endless run never falls. -/
theorem IsEndless.monotone_basicObjective : Monotone fun n => (f n).tableau.basicObjective := by
  refine monotone_nat_of_le_succ fun n => ?_
  have hreaches := h.reaches n.zero_le
  exact (hp n).pivot.basicObjective_le (isCanonical_of_reflTransGen hreaches h₀).1 (hp n).apply_eq
    (rhsAt_nonneg_of_reflTransGen hreaches h₀ hrhs)

/-- The pivots of an endless run are degenerate from some moment on. -/
theorem IsEndless.exists_degenerate : ∃ N, ∀ n ≥ N, (f n).tableau.rhsAt (p n).row = 0 := by
  have hfinite : {n | (f n).tableau.rhsAt (p n).row ≠ 0}.Finite := by
    by_contra hinfinite
    obtain ⟨m, hm, n, -, hmn, heq⟩ := h.exists_tableau_eq h₀ hinfinite
    -- the objective has grown in between, although the tableau is the same
    have hreaches := h.reaches m.zero_le
    have hnonneg := rhsAt_nonneg_of_reflTransGen hreaches h₀ hrhs _ (hp m).pivot.readsOff.row_lt
    have hlt := (hp m).pivot.basicObjective_lt (isCanonical_of_reflTransGen hreaches h₀).1
      (hp m).apply_eq (lt_of_le_of_ne hnonneg (Ne.symm hm))
    have hle := h.monotone_basicObjective h₀ hrhs hp (Nat.succ_le_of_lt hmn)
    rw [heq] at hlt
    exact absurd hle (not_le.2 hlt)
  obtain ⟨N, hN⟩ := hfinite.bddAbove
  refine ⟨N + 1, fun n hn => ?_⟩
  by_contra hne
  exact absurd (hN hne) (not_le.2 hn)

end

/-- Degenerate pivots make the streak longer. -/
theorem le_streak {p : ℕ → Pivot ℚ} (hp : ∀ n, s.Improves (f n) (f (n + 1)) (p n)) {N : ℕ}
    (hN : ∀ n ≥ N, (f n).tableau.rhsAt (p n).row = 0) (k : ℕ) : k ≤ (f (N + k)).streak := by
  induction k with
  | zero => exact Nat.zero_le _
  | succ k ih =>
    rw [← add_assoc, (hp (N + k)).streak_eq, if_pos (hN _ (N.le_add_right k))]
    exact Nat.succ_le_succ ih

/-- No run from a canonical tableau without negative right-hand sides is endless. -/
theorem not_isEndless (s : Solver) (h₀ : (f 0).tableau.IsCanonical)
    (hrhs : ∀ i < (f 0).tableau.height, 0 ≤ (f 0).tableau.rhsAt i) : ¬ s.IsEndless f := by
  intro h
  have hcanonical : ∀ n, (f n).tableau.IsCanonical := fun n =>
    (isCanonical_of_reflTransGen (h.reaches n.zero_le) h₀).1
  have himproves : ∀ n, ∃ p, s.Improves (f n) (f (n + 1)) p := fun n =>
    (h n).improves (hcanonical n) (rhsAt_nonneg_of_reflTransGen (h.reaches n.zero_le) h₀ hrhs)
  choose p hp using himproves
  obtain ⟨N, hN⟩ := h.exists_degenerate h₀ hrhs hp
  -- from here on the rule that excludes cycles is used
  let M := N + s.degenerateStreakLimit
  have hstreak : ∀ n, s.degenerateStreakLimit ≤ (f (M + n)).streak := by
    intro n
    have hle := le_streak hp hN (s.degenerateStreakLimit + n)
    rw [← add_assoc] at hle
    exact (Nat.le_add_right _ _).trans hle
  refine Pivot.not_isCycling (fun n => (f (M + n)).tableau) (fun n => p (M + n))
    ⟨fun n => hcanonical _, fun n => (hp _).pivot, fun n => (hp _).isLowest (hstreak n),
      fun n => hN _ ?_, fun n => (hp (M + n)).apply_eq⟩
  exact (Nat.le_add_right _ _).trans (Nat.le_add_right _ _)

/-! ### Solving -/

section

variable {t : Tableau ℚ}

/-- A canonical tableau without negative right-hand sides is solved as optimal or unbounded within
every sufficiently large limit on pivots, whatever the limit on degenerate pivots is. No run of it
is endless. -/
theorem solve_terminates (limit : Nat) (ht : t.IsCanonical) (hrhs : ∀ i < t.height, 0 ≤ t.rhsAt i) :
    (∃ N, ∀ n ≥ N, ∃ solution, (Solver.solve ⟨n, limit⟩ t).outcome = .ok solution ∧
        (solution.status = .optimal ∨
          ∃ column name, solution.status = .unbounded column name)) ∧
      ∀ (s : Solver) (f : ℕ → Run ℚ), f 0 = .start t → ¬ s.IsEndless f := by
  have hendless : ∀ (s : Solver) (f : ℕ → Run ℚ), f 0 = .start t → ¬ s.IsEndless f := by
    intro s f hstart
    refine s.not_isEndless ?_ ?_
    · rw [hstart]
      exact ht
    · rw [hstart]
      exact hrhs
  refine ⟨?_, hendless⟩
  rcases solves_or_isEndless limit ht.toIsWellFormed with ⟨N, hN⟩ | ⟨-, f, hstart, h⟩
  · refine ⟨N, fun n hn => ?_⟩
    obtain ⟨solution, hsolution⟩ := hN n hn t.rows
    exact ⟨solution, hsolution, status_of_run ht hrhs hsolution⟩
  · exact absurd h (hendless _ f hstart)

/-- Forty degenerate pivots in a row lead nowhere, but with a larger limit on pivots the rule that
excludes cycles takes over. -/
theorem solve_terminates_bealeProgram :
    Tableau.bealeProgram.IsCanonical ∧
      (∀ i < Tableau.bealeProgram.height, 0 ≤ Tableau.bealeProgram.rhsAt i) ∧
      (Solver.solve ⟨40, 40⟩ .bealeProgram).outcome = Outcome.refuse (.iterationLimit 40) ∧
      ∃ N, ∀ n ≥ N, ∃ solution, (Solver.solve ⟨n, 40⟩ .bealeProgram).outcome = .ok solution ∧
        (solution.status = .optimal ∨
          ∃ column name, solution.status = .unbounded column name) := by
  have hcanonical : Tableau.bealeProgram.IsCanonical := by decide +kernel
  have hrhs : ∀ i < Tableau.bealeProgram.height, 0 ≤ Tableau.bealeProgram.rhsAt i := by
    decide +kernel
  refine ⟨hcanonical, hrhs, ?_, (solve_terminates 40 hcanonical hrhs).1⟩
  decide +kernel

end

end Solver

end LinProg
