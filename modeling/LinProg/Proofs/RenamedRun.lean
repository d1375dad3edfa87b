import LinProg.Proofs.Outcome
import LinProg.Proofs.Renaming

/-!
# Runs with renamed variables

The pivot rules read numbers and columns. The run of a renamed tableau therefore takes the same
pivots as the run of the tableau, with the same elements and ratios, and gives the same solution
with the names replaced, or fails with the same failure.
-/

namespace LinProg

/-! ### Pivots -/

section

variable {α : Type} [Scalar α] {r : String → String} (hr : Function.Injective r)

namespace Selection

theorem isNameless_repair (t : Tableau α) (reduced : List α) (row : Nat) :
    (repair t reduced row).IsNameless := by
  refine (Outcome.isNameless_inRange _).bind fun entries => ?_
  dsimp only
  split
  · exact Outcome.isNameless_ok _
  · exact (Outcome.isNameless_inRange _).bind fun _ =>
      (t.rows.isNameless_column _).bind fun _ => Outcome.isNameless_ok _

theorem isNameless_ratioTest (t : Tableau α) (column : Nat) (rule : PivotRule)
    (precedes : Nat → Nat → Bool) : (ratioTest t column rule precedes).IsNameless := by
  refine (t.rows.isNameless_column _).bind fun entries => ?_
  dsimp only
  split
  · exact Outcome.isNameless_ok _
  · exact (Outcome.isNameless_inRange _).bind fun _ => Outcome.isNameless_ok _

theorem isNameless_dantzig (t : Tableau α) (reduced : List α) : (dantzig t reduced).IsNameless := by
  unfold dantzig
  split
  · exact Outcome.isNameless_ok _
  · exact isNameless_ratioTest _ _ _ _

theorem isNameless_bland (t : Tableau α) (reduced : List α) (basicColumns : List Nat) :
    (bland t reduced basicColumns).IsNameless := by
  unfold bland
  split
  · exact Outcome.isNameless_ok _
  · exact (Outcome.isNameless_within _).bind fun _ => isNameless_ratioTest _ _ _ _

end Selection

namespace Pivot

variable (p : Pivot α) (t : Tableau α)

omit [Scalar α] in
theorem step_rename : p.step (t.rename r) = (p.step t).rename r (Step.rename r) := by
  unfold step
  rw [Tableau.rename_names, Tableau.rename_basis, List.getElem?_map, List.getElem?_map]
  exact Outcome.rename_bind (Outcome.inRange_map _ r) fun _ =>
    Outcome.rename_bind (Outcome.inRange_map _ r) fun _ => rfl

omit [Scalar α] in
theorem fits_rename : p.fits (t.rename r) = p.fits t := by
  unfold fits
  rw [Tableau.height_rename, Tableau.width_rename, Tableau.rename_rhs, Tableau.rename_rows,
    Tableau.rename_basis, List.length_map]

theorem apply_rename : p.apply (t.rename r) = (p.apply t).rename r (Tableau.rename r) := by
  unfold apply
  rw [fits_rename, Tableau.rename_names, List.getElem?_map]
  refine Outcome.rename_bind (Outcome.isNameless_within _ r) fun _ =>
    Outcome.rename_bind (Outcome.isNameless_inRange _ r) fun row =>
    Outcome.rename_bind (Outcome.isNameless_inRange _ r) fun value =>
    Outcome.rename_bind (Outcome.inRange_map _ r) fun entering => ?_
  dsimp only [Outcome.pure_eq, Outcome.rename, Tableau.rename, id_eq]
  rw [List.map_set]

end Pivot

theorem Run.advance_rename (run : Run α) (p : Pivot α) :
    (run.rename r).advance p = (run.advance p).rename r (Run.rename r) :=
  Outcome.rename_bind (p.step_rename run.tableau) fun _ =>
    Outcome.rename_bind (p.apply_rename run.tableau) fun _ => rfl

include hr

theorem ReducedCosts.compute_rename (t : Tableau α) :
    compute (t.rename r) = (compute t).rename r id := by
  unfold compute
  rw [Tableau.rename_basis, List.length_map]
  refine Outcome.rename_bind (Outcome.isNameless_check _ _ _ r) fun _ =>
    Outcome.rename_bind (t.rows.isNameless_checkWidths _ _ r) fun _ =>
    Outcome.rename_bind (t.basicColumns_rename hr) fun columns =>
    Outcome.rename_bind (Outcome.isNameless_mapM (fun _ _ => Outcome.isNameless_inRange _) r)
      fun basic =>
    Outcome.rename_bind (Outcome.isNameless_within _ r) fun _ => rfl

namespace Solver

variable (s : Solver) (run : Run α)

/-- A selection reads the numbers and the columns of the basic variables, and no names. -/
theorem select_rename (costs : ReducedCosts α) (standing : Standing) :
    s.select (run.rename r) costs standing = (s.select run costs standing).rename r id := by
  unfold select
  cases standing.lowestRow? with
  | some row => exact Selection.isNameless_repair _ _ _ r
  | none =>
    have hsame : (run.rename r).streak = run.streak := rfl
    dsimp only
    by_cases hstreak : s.degenerateStreakLimit ≤ run.streak
    · rw [if_pos (hsame ▸ hstreak), if_pos hstreak]
      exact Outcome.rename_bind (run.tableau.basicColumns_rename hr) fun columns =>
        Selection.isNameless_bland run.tableau costs.reduced columns r
    · rw [if_neg (hsame ▸ hstreak), if_neg hstreak]
      exact Selection.isNameless_dantzig run.tableau costs.reduced r

theorem decideMove_rename (costs : ReducedCosts α) :
    s.decideMove (run.rename r) costs = (s.decideMove run costs).rename r (Move.rename r) := by
  unfold decideMove
  dsimp only [Run.rename, Tableau.rename_rhs]
  by_cases hoptimal : (Standing.classify run.tableau.rhs costs.reduced).isOptimal = true
  · rw [if_pos hoptimal, if_pos hoptimal]
    rfl
  · rw [if_neg hoptimal, if_neg hoptimal]
    refine Outcome.rename_bind (s.select_rename hr run costs _) fun selection => ?_
    cases selection with
    | pivot p => rfl
    | unbounded column =>
      dsimp only [id_eq]
      rw [Tableau.rename_names, List.getElem?_map]
      exact Outcome.rename_bind (Outcome.inRange_map _ r) fun _ => rfl
    | infeasible row =>
      dsimp only [id_eq]
      rw [Tableau.rename_basis, List.getElem?_map]
      exact Outcome.rename_bind (Outcome.inRange_map _ r) fun _ => rfl

/-- A renamed run moves as the run does. -/
theorem next_rename : s.next (run.rename r) = (s.next run).rename r (Prod.map (Move.rename r) id) :=
  Outcome.rename_bind (ReducedCosts.compute_rename hr run.tableau) fun costs =>
    Outcome.rename_bind (s.decideMove_rename hr run costs) fun _ => rfl

/-- However far a renamed run is followed, it takes the pivots of the run, up to the same end. -/
theorem walk_rename (n : Nat) : s.walk n (run.rename r) = (s.walk n run).rename r := by
  induction n generalizing run with
  | zero =>
    rw [walk, walk, s.next_rename hr]
    cases s.next run with
    | error failure => rfl
    | ok p =>
      obtain ⟨move, costs⟩ := p
      cases move <;> rfl
  | succ n ih =>
    rw [walk, walk, s.next_rename hr]
    cases s.next run with
    | error failure => rfl
    | ok p =>
      obtain ⟨move, costs⟩ := p
      cases move with
      | halt status => rfl
      | pivot p =>
        dsimp only [Outcome.rename, Prod.map, Move.rename]
        rw [run.advance_rename]
        cases run.advance p with
        | error failure => rfl
        | ok advanced => exact ih advanced

end Solver

/-! ### Solutions -/

namespace Tableau

variable (t : Tableau α)

theorem basicValue_rename (name : String) :
    (t.rename r).basicValue (r name) = (t.basicValue name).rename r id := by
  have hrow : (t.rename r).basicRow? (r name) = t.basicRow? name := idxOf?_map hr t.basis name
  unfold basicValue
  rw [hrow]
  cases t.basicRow? name with
  | none => rfl
  | some row => exact Outcome.isNameless_inRange _ r

theorem values_rename : (t.rename r).values = t.values.rename r (List.map (Prod.map r id)) :=
  Outcome.mapM_map fun name _ => Outcome.rename_bind (t.basicValue_rename hr name) fun _ => rfl

end Tableau

theorem Analysis.compute_rename (t : Tableau α) (costs : ReducedCosts α) :
    compute (t.rename r) costs = (compute t costs).rename r (Analysis.rename r) := by
  unfold compute
  dsimp only
  rw [Tableau.structural_rename, Tableau.width_rename]
  refine Outcome.rename_bind (t.values_rename hr) fun values =>
    Outcome.rename_bind (Outcome.isNameless_within _ r) fun _ => ?_
  simp only [Outcome.pure_eq, Outcome.rename, Analysis.rename, List.zip_map_left, ← List.map_drop,
    ← List.map_take, List.zipIdx_map, List.filter_map, List.map_map]
  -- only the question which variables are basic still reads a renamed list
  congr 2
  refine List.map_congr_left fun ((name, value), reduced) _ => ?_
  simp only [Function.comp_apply, Prod.map_apply, id_eq, t.isBasic_rename hr]

namespace Solution

omit [Scalar α] hr in
@[simp] theorem isOptimal_rename (solution : Solution α) :
    (solution.rename r).isOptimal = solution.isOptimal := by
  unfold isOptimal Solution.rename
  cases solution.status <;> rfl

variable (t : Tableau α)

omit hr in
theorem degenerateBasis_rename : degenerateBasis (t.rename r) = (degenerateBasis t).map r := by
  unfold degenerateBasis
  rw [Tableau.rename_basis, Tableau.rename_rhs, List.zip_map_left, List.filter_map, List.map_map,
    List.map_map]
  rfl

theorem alternate?_rename (costs : ReducedCosts α) (column : Nat) :
    alternate? (t.rename r) costs column =
      (alternate? t costs column).rename r (Option.map (Alternate.rename r)) := by
  unfold alternate?
  rw [Tableau.rename_names, List.getElem?_map]
  refine Outcome.rename_bind (Outcome.inRange_map _ r) fun name => ?_
  rw [t.isBasic_rename hr]
  by_cases hbasic : t.isBasic name = true
  · rw [if_pos hbasic, if_pos hbasic]
    rfl
  rw [if_neg hbasic, if_neg hbasic]
  refine Outcome.rename_bind (Outcome.isNameless_inRange _ r) fun cost => ?_
  dsimp only [id_eq]
  by_cases hcost : (!Scalar.isZero cost) = true
  · rw [if_pos hcost, if_pos hcost]
    rfl
  rw [if_neg hcost, if_neg hcost]
  refine Outcome.rename_bind (t.rows.isNameless_column column r) fun entries => ?_
  dsimp only [id_eq]
  by_cases hentries : (!entries.any Scalar.isPositive) = true
  · rw [if_pos hentries, if_pos hentries]
    rfl
  rw [if_neg hentries, if_neg hentries]
  refine Outcome.rename_bind (Selection.isNameless_ratioTest t column .dantzig _ r) fun found => ?_
  cases found with
  | pivot p =>
    exact Outcome.rename_bind (p.step_rename t) fun _ =>
      Outcome.rename_bind (p.apply_rename t) fun _ => rfl
  | unbounded column => rfl
  | infeasible row => rfl

theorem alternatesOf_rename (costs : ReducedCosts α) : alternatesOf (t.rename r) costs =
    (alternatesOf t costs).rename r (List.map (Alternate.rename r)) := by
  unfold alternatesOf
  rw [Tableau.width_rename]
  refine Outcome.rename_bind
    (Outcome.mapM_rename fun column _ => alternate?_rename hr t costs column) fun found => ?_
  simp only [Outcome.pure_eq, Outcome.rename, List.filterMap_map, List.map_filterMap]
  rfl

end Solution

namespace Solver

/-- The solution in which a renamed run has ended is the renamed solution. -/
theorem conclude_rename (h : Halt α) (initialRows : Rows α) :
    conclude (h.rename r) initialRows = (conclude h initialRows).rename r (Solution.rename r) := by
  unfold conclude
  refine Outcome.rename_bind (f := Prod.map (Status.rename r) id) rfl fun (status, costs) => ?_
  have hsteps : (h.rename r).run.trail.reverse = h.run.trail.reverse.map (Step.rename r) :=
    List.map_reverse.symm
  cases status with
  | optimal =>
    dsimp only [Prod.map, Status.rename]
    rw [if_pos rfl, if_pos rfl, hsteps]
    refine Outcome.rename_bind (Solution.alternatesOf_rename hr h.run.tableau costs)
      fun alternates => ?_
    refine Outcome.rename_bind (Analysis.compute_rename hr h.run.tableau costs) fun analysis => ?_
    dsimp only [Halt.rename, Run.rename]
    rw [Solution.degenerateBasis_rename]
    rfl
  | unbounded column name =>
    dsimp only [Prod.map, Status.rename]
    rw [if_neg nofun, if_neg nofun, hsteps]
    rfl
  | infeasible row name =>
    dsimp only [Prod.map, Status.rename]
    rw [if_neg nofun, if_neg nofun, hsteps]
    rfl

omit hr in
theorem closingEvents_rename (solution : Solution α) :
    closingEvents (solution.rename r) = (closingEvents solution).map (Event.rename r) := by
  have hsteps : (solution.rename r).pivots = solution.pivots := List.length_map (Step.rename r)
  have halternates : (solution.rename r).alternates.length = solution.alternates.length :=
    List.length_map (Alternate.rename r)
  have hisEmpty : (solution.rename r).alternates.isEmpty = solution.alternates.isEmpty :=
    List.isEmpty_map
  unfold closingEvents
  rw [solution.isOptimal_rename, hsteps, halternates, hisEmpty]
  by_cases hoptimal : solution.isOptimal = true
  · rw [if_pos hoptimal, if_pos hoptimal]
    cases solution.alternates <;> rfl
  · rw [if_neg hoptimal, if_neg hoptimal]
    rfl

omit [Scalar α] in
theorem ready_rename (t : Tableau α) : ready (t.rename r) = (ready t).rename r id :=
  Outcome.rename_bind (t.validate_rename hr) fun _ =>
    Outcome.rename_bind (t.basicColumns_rename hr) fun _ => rfl

/-- A renamed tableau is run with the same events and the same result, renamed. -/
theorem run_rename (s : Solver) (t : Tableau α) (initialRows : Rows α) :
    s.run (t.rename r) initialRows = (s.run t initialRows).rename r (Solution.rename r) := by
  unfold run
  rw [ready_rename hr]
  cases ready t with
  | error failure => rfl
  | ok u =>
    have hwalk : s.walk s.maxIterations (.start (t.rename r)) =
        (s.walk s.maxIterations (.start t)).rename r :=
      s.walk_rename hr (.start t) s.maxIterations
    have hpivots :
        ((s.walk s.maxIterations (.start t)).rename r).run.trail.reverse.map Event.pivoted =
          ((s.walk s.maxIterations (.start t)).run.trail.reverse.map Event.pivoted).map
            (Event.rename r) := by
      simp only [Halt.rename, Run.rename, ← List.map_reverse, List.map_map]
      rfl
    dsimp only [Outcome.rename, id_eq]
    rw [hwalk, conclude_rename hr, hpivots]
    cases conclude (s.walk s.maxIterations (.start t)) initialRows with
    | error failure => rfl
    | ok solution =>
      dsimp only [Outcome.rename, Recorded.rename]
      rw [closingEvents_rename, List.map_append]

end Solver

end

end LinProg
