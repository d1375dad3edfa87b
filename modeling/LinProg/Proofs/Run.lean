import Mathlib.Logic.Relation
import LinProg.Proofs.Solution
import LinProg.Simplex

/-!
# Runs

A run goes from one tableau to the next as long as its next move is a pivot. `Steps` is one such
step, and every run that comes to an end is a sequence of steps with a last move that halts it. On a
well-formed tableau each step can be taken and leads to a well-formed tableau, so a run can fail
only by reaching the limit on pivots. In exact arithmetic a run keeps a canonical tableau canonical
and never changes the program that it states.
-/

namespace LinProg

open Scalar

/-! ### Outcomes with events -/

namespace Recorded

variable {α β γ : Type}

theorem outcome_andThen (first : Recorded α β) (next : β → Recorded α γ) :
    (first.andThen next).outcome = first.outcome >>= fun b => (next b).outcome := by
  unfold andThen
  cases first.outcome <;> rfl

theorem andThen_eq_ok {first : Recorded α β} {next : β → Recorded α γ} {c : γ} :
    (first.andThen next).outcome = .ok c ↔
      ∃ b, first.outcome = .ok b ∧ (next b).outcome = .ok c := by
  rw [outcome_andThen, Outcome.bind_eq_ok]

@[simp] theorem outcome_andEvent (outcome : Outcome β) (event : Event α) :
    (andEvent outcome event).outcome = outcome := by
  cases outcome <;> rfl

@[simp] theorem outcome_quiet (outcome : Outcome β) :
    (quiet outcome : Recorded α β).outcome = outcome :=
  rfl

end Recorded

section

variable {α : Type} [Scalar α]

/-- What a run does with a selection in its tableau. -/
inductive Selection.Becomes (t : Tableau α) : Selection α → Move α → Prop where
  | pivot (p : Pivot α) : Becomes t (.pivot p) (.pivot p)
  | unbounded {column : Nat} {name : String} (h : t.names[column]? = some name) :
      Becomes t (.unbounded column) (.halt (.unbounded column name))
  | infeasible {row : Nat} {name : String} (h : t.basis[row]? = some name) :
      Becomes t (.infeasible row) (.halt (.infeasible row name))

namespace Solver

variable {s : Solver} {r r' : Run α} {costs : ReducedCosts α}

/-! ### The next move -/

/-- A run halts as optimal exactly at an optimal tableau, and follows a selection at any other. -/
theorem next_cases {move : Move α} (h : s.next r = .ok (move, costs)) :
    ReducedCosts.compute r.tableau = .ok costs ∧
      ((Standing.classify r.tableau.rhs costs.reduced = .optimal ∧ move = .halt .optimal) ∨
        Standing.classify r.tableau.rhs costs.reduced ≠ .optimal ∧ ∃ selection,
          s.select r costs (Standing.classify r.tableau.rhs costs.reduced) = .ok selection ∧
            selection.Becomes r.tableau move) := by
  obtain ⟨costs', hcosts, h⟩ := Outcome.bind_eq_ok.1 h
  obtain ⟨move', hmove, h⟩ := Outcome.bind_eq_ok.1 h
  cases h
  refine ⟨hcosts, ?_⟩
  unfold decideMove at hmove
  dsimp only at hmove
  split at hmove
  · next hoptimal =>
    cases hmove
    exact .inl ⟨by simpa [Standing.isOptimal] using hoptimal, rfl⟩
  · next hoptimal =>
    obtain ⟨selection, hselection, hmove⟩ := Outcome.bind_eq_ok.1 hmove
    refine .inr ⟨by simpa [Standing.isOptimal] using hoptimal, selection, hselection, ?_⟩
    cases selection with
    | pivot p =>
      cases hmove
      exact .pivot p
    | unbounded column =>
      obtain ⟨name, hname, hmove⟩ := Outcome.bind_eq_ok.1 hmove
      cases hmove
      exact .unbounded (Outcome.inRange_eq_ok.1 hname)
    | infeasible row =>
      obtain ⟨name, hname, hmove⟩ := Outcome.bind_eq_ok.1 hmove
      cases hmove
      exact .infeasible (Outcome.inRange_eq_ok.1 hname)

/-- A selection repairs an infeasible row; otherwise the length of the streak decides between the
two rules that improve the objective. -/
theorem select_cases {standing : Standing} {selection : Selection α}
    (h : s.select r costs standing = .ok selection) :
    (∃ row, standing = .infeasible row ∧
        Selection.repair r.tableau costs.reduced row = .ok selection) ∨
      (standing.lowestRow? = none ∧ s.degenerateStreakLimit ≤ r.streak ∧
        ∃ columns, r.tableau.basicColumns = .ok columns ∧
          Selection.bland r.tableau costs.reduced columns = .ok selection) ∨
      (standing.lowestRow? = none ∧ r.streak < s.degenerateStreakLimit ∧
        Selection.dantzig r.tableau costs.reduced = .ok selection) := by
  unfold select at h
  cases standing with
  | infeasible row => exact .inl ⟨row, rfl, h⟩
  | improvable =>
    dsimp only [Standing.lowestRow?] at h
    split at h
    · next hstreak =>
      obtain ⟨columns, hcolumns, h⟩ := Outcome.bind_eq_ok.1 h
      exact .inr (.inl ⟨rfl, hstreak, columns, hcolumns, h⟩)
    · next hstreak => exact .inr (.inr ⟨rfl, not_le.1 hstreak, h⟩)
  | optimal =>
    dsimp only [Standing.lowestRow?] at h
    split at h
    · next hstreak =>
      obtain ⟨columns, hcolumns, h⟩ := Outcome.bind_eq_ok.1 h
      exact .inr (.inl ⟨rfl, hstreak, columns, hcolumns, h⟩)
    · next hstreak => exact .inr (.inr ⟨rfl, not_le.1 hstreak, h⟩)

/-- A run ends as infeasible at the row that it has tried to repair. -/
theorem repair_of_halt {row : Nat} {name : String}
    (h : s.next r = .ok (.halt (.infeasible row name), costs)) :
    Standing.classify r.tableau.rhs costs.reduced = .infeasible row ∧
      Selection.repair r.tableau costs.reduced row = .ok (.infeasible row) := by
  obtain ⟨-, ⟨-, h⟩ | ⟨-, selection, hselection, hmove⟩⟩ := next_cases h
  · cases h
  cases hmove
  rcases select_cases hselection with ⟨row', hstanding, hrepair⟩ | ⟨-, -, columns, -, hbland⟩ |
    ⟨-, -, hdantzig⟩
  · obtain ⟨_, -, ⟨heq, -⟩ | ⟨p, heq, -⟩⟩ := Selection.repair_cases hrepair
    · cases heq
      exact ⟨hstanding, hrepair⟩
    · cases heq
  · exact absurd hbland Selection.bland_ne_infeasible
  · exact absurd hdantzig Selection.dantzig_ne_infeasible

/-- A run ends as unbounded where a rule has tried to improve the objective. -/
theorem improve_of_halt {column : Nat} {name : String}
    (h : s.next r = .ok (.halt (.unbounded column name), costs)) :
    Standing.classify r.tableau.rhs costs.reduced = .improvable ∧
      s.select r costs .improvable = .ok (.unbounded column) := by
  obtain ⟨-, ⟨-, h⟩ | ⟨hoptimal, selection, hselection, hmove⟩⟩ := next_cases h
  · cases h
  cases hmove
  cases hstanding : Standing.classify r.tableau.rhs costs.reduced with
  | optimal => exact absurd hstanding hoptimal
  | infeasible row =>
    rw [hstanding] at hselection
    exact absurd hselection Selection.repair_ne_unbounded
  | improvable =>
    rw [hstanding] at hselection
    exact ⟨rfl, hselection⟩

/-- At a well-formed tableau that is not optimal there is a selection. -/
theorem exists_select_eq_ok (hr : r.tableau.IsWellFormed)
    (hcosts : ReducedCosts.compute r.tableau = .ok costs)
    (hoptimal : Standing.classify r.tableau.rhs costs.reduced ≠ .optimal) :
    ∃ selection, s.select r costs (Standing.classify r.tableau.rhs costs.reduced) = .ok selection ∧
      selection.LiesIn r.tableau := by
  have hlen := ReducedCosts.length_reduced hr hcosts
  unfold select
  cases hstanding : Standing.classify r.tableau.rhs costs.reduced with
  | optimal => exact absurd hstanding hoptimal
  | infeasible row =>
    obtain ⟨v, hv, -⟩ := Standing.negative_of_classify hstanding
    have hrow : row < r.tableau.height :=
      hr.length_rhs ▸ (List.getElem?_eq_some_iff.1 hv).1
    exact Selection.exists_repair_eq_ok hr.toIsValid _ hrow
  | improvable =>
    obtain ⟨-, v, hv, -⟩ := Standing.classify_eq_improvable.1 hstanding
    have hne : costs.reduced ≠ [] := List.ne_nil_of_mem hv
    dsimp only [Standing.lowestRow?]
    split
    · rw [hr.basicColumns_eq, Outcome.ok_bind]
      refine Selection.exists_bland_eq_ok hr.toIsValid hlen hne ?_
      rw [List.length_map, hr.length_basis]
    · exact Selection.exists_dantzig_eq_ok hr.toIsValid hlen hne

/-- A run at a well-formed tableau has a next move. -/
theorem exists_next_eq_ok (s : Solver) (hr : r.tableau.IsWellFormed) :
    ∃ move costs, s.next r = .ok (move, costs) := by
  obtain ⟨costs, hcosts, -⟩ := ReducedCosts.exists_compute_eq_ok hr
  rw [next, hcosts, Outcome.ok_bind, decideMove]
  by_cases hoptimal : Standing.classify r.tableau.rhs costs.reduced = .optimal
  · exact ⟨.halt .optimal, costs, by simp [hoptimal, Standing.isOptimal]⟩
  · obtain ⟨selection, hselection, hlies⟩ := exists_select_eq_ok (s := s) hr hcosts hoptimal
    rw [if_neg (by simpa [Standing.isOptimal] using hoptimal), hselection, Outcome.ok_bind]
    cases selection with
    | pivot p => exact ⟨.pivot p, costs, rfl⟩
    | unbounded column =>
      have hcolumn : column < r.tableau.names.length := hlies
      dsimp only
      rw [List.getElem?_eq_getElem hcolumn]
      exact ⟨_, costs, rfl⟩
    | infeasible row =>
      have hrow : row < r.tableau.basis.length := hr.length_basis ▸ hlies
      dsimp only
      rw [List.getElem?_eq_getElem hrow]
      exact ⟨_, costs, rfl⟩

/-- The pivot that a run takes at a well-formed tableau is read off it, on an element that is read
as positive or negative. -/
theorem readsOff_of_next (hr : r.tableau.IsWellFormed) {p : Pivot α}
    (h : s.next r = .ok (.pivot p, costs)) :
    p.ReadsOff r.tableau ∧ (isNegative p.element = true ∨ isPositive p.element = true) := by
  obtain ⟨hcosts, ⟨-, h⟩ | ⟨hoptimal, selection, hselection, hmove⟩⟩ := next_cases h
  · cases h
  · cases hmove
    obtain ⟨selection', hselection', hlies⟩ := exists_select_eq_ok (s := s) hr hcosts hoptimal
    rw [hselection, Except.ok.injEq] at hselection'
    rw [← hselection'] at hlies
    exact hlies

/-- A pivot repairs the row of least negative right-hand side, if there is one. If there is none,
the length of the streak decides between the two other rules. -/
theorem rule_of_next {p : Pivot α} (h : s.next r = .ok (.pivot p, costs)) :
    ReducedCosts.compute r.tableau = .ok costs ∧
      ((∃ row, Standing.classify r.tableau.rhs costs.reduced = .infeasible row ∧
          p.rule = .infeasibility ∧ p.row = row) ∨
        (Standing.classify r.tableau.rhs costs.reduced).isFeasible = true ∧
          ((s.degenerateStreakLimit ≤ r.streak ∧ p.rule = .bland) ∨
            (r.streak < s.degenerateStreakLimit ∧ p.rule = .dantzig))) := by
  obtain ⟨hcosts, ⟨-, h⟩ | ⟨-, selection, hselection, hmove⟩⟩ := next_cases h
  · cases h
  cases hmove
  refine ⟨hcosts, ?_⟩
  rcases select_cases hselection with ⟨row, hrow, hrepair⟩ | ⟨hnone, hstreak, columns, -, hbland⟩ |
    ⟨hnone, hstreak, hdantzig⟩
  · exact .inl ⟨row, hrow, Selection.rule_of_repair hrepair⟩
  · exact .inr ⟨by rw [Standing.isFeasible, hnone]; rfl,
      .inl ⟨hstreak, Selection.rule_of_bland hbland⟩⟩
  · exact .inr ⟨by rw [Standing.isFeasible, hnone]; rfl,
      .inr ⟨hstreak, Selection.rule_of_dantzig hdantzig⟩⟩

/-- A pivot that does not repair a row has a ratio at its own row. -/
theorem exists_ratio_of_next {p : Pivot α} (h : s.next r = .ok (.pivot p, costs))
    (hrule : p.rule ≠ .infeasibility) : ∃ ratio, p.ratios[p.row]? = some (some ratio) := by
  obtain ⟨-, ⟨-, h⟩ | ⟨-, selection, hselection, hmove⟩⟩ := next_cases h
  · cases h
  cases hmove
  rcases select_cases hselection with
    ⟨row, -, hrepair⟩ | ⟨-, -, columns, -, hbland⟩ | ⟨-, -, hdantzig⟩
  · exact absurd (Selection.rule_of_repair hrepair).1 hrule
  · obtain ⟨column, precedes, htest⟩ := Selection.ratioTest_of_bland hbland
    exact Selection.exists_ratio_of_ratioTest htest
  · obtain ⟨column, htest⟩ := Selection.ratioTest_of_dantzig hdantzig
    exact Selection.exists_ratio_of_ratioTest htest

/-! ### Steps -/

/-- A run takes its next pivot. -/
def Steps (s : Solver) (r r' : Run α) : Prop :=
  ∃ p costs, s.next r = .ok (.pivot p, costs) ∧ r.advance p = .ok r'

theorem apply_of_advance {p : Pivot α} (h : r.advance p = .ok r') :
    p.apply r.tableau = .ok r'.tableau := by
  obtain ⟨step, -, h⟩ := Outcome.bind_eq_ok.1 h
  obtain ⟨t', ht', h⟩ := Outcome.bind_eq_ok.1 h
  cases h
  exact ht'

theorem streak_of_advance {p : Pivot α} (h : r.advance p = .ok r') :
    r'.streak = if p.isDegenerate then r.streak + 1 else 0 := by
  obtain ⟨step, -, h⟩ := Outcome.bind_eq_ok.1 h
  obtain ⟨t', -, h⟩ := Outcome.bind_eq_ok.1 h
  cases h
  rfl

/-- The pivot is recorded as the latest step. -/
theorem step_of_advance {p : Pivot α} (h : r.advance p = .ok r') :
    ∃ step, p.step r.tableau = .ok step ∧ r'.trail = step :: r.trail := by
  obtain ⟨step, hstep, h⟩ := Outcome.bind_eq_ok.1 h
  obtain ⟨t', -, h⟩ := Outcome.bind_eq_ok.1 h
  cases h
  exact ⟨step, hstep, rfl⟩

/-- The pivot is recorded with its rule. -/
theorem trail_of_advance {p : Pivot α} (h : r.advance p = .ok r') :
    ∃ step, r'.trail = step :: r.trail ∧ step.rule = p.rule := by
  obtain ⟨step, hstep, htrail⟩ := step_of_advance h
  obtain ⟨entering, leaving, -, -, rfl⟩ := Pivot.step_eq_ok hstep
  exact ⟨_, htrail, rfl⟩

theorem exists_advance_eq_ok (hr : r.tableau.IsValid) {p : Pivot α} (hp : p.ReadsOff r.tableau) :
    ∃ r', r.advance p = .ok r' := by
  obtain ⟨step, hstep⟩ := p.exists_step_eq_ok hr hp
  obtain ⟨t', ht'⟩ := p.exists_apply_eq_ok hr hp
  rw [Run.advance, hstep, Outcome.ok_bind, ht']
  exact ⟨_, rfl⟩

theorem Steps.isWellFormed (h : s.Steps r r') (hr : r.tableau.IsWellFormed) :
    r'.tableau.IsWellFormed := by
  obtain ⟨p, costs, hnext, hadvance⟩ := h
  obtain ⟨hp, -⟩ := readsOff_of_next hr hnext
  exact (Pivot.exchanges_of_apply hr.toIsValid hp (apply_of_advance hadvance)).isWellFormed hr

/-- A step exchanges basic variables and keeps the variables, their costs and the rows in number. -/
theorem Steps.names_costs_height (h : s.Steps r r') (hr : r.tableau.IsWellFormed) :
    r'.tableau.names = r.tableau.names ∧ r'.tableau.costs = r.tableau.costs ∧
      r'.tableau.height = r.tableau.height := by
  obtain ⟨p, costs, hnext, hadvance⟩ := h
  obtain ⟨hp, -⟩ := readsOff_of_next hr hnext
  have hex := p.exchanges_of_apply hr.toIsValid hp (apply_of_advance hadvance)
  exact ⟨hex.names_eq, hex.costs_eq, hex.height_eq⟩

/-- What steps preserve holds at the end of a run if it holds at its beginning. -/
theorem invariant_of_reflTransGen {P : Tableau α → Prop}
    (hstep : ∀ r r' : Run α, s.Steps r r' → P r.tableau → P r'.tableau)
    (h : Relation.ReflTransGen s.Steps r r') (hr : P r.tableau) : P r'.tableau := by
  induction h with
  | refl => exact hr
  | tail _ hlast ih => exact hstep _ _ hlast ih

theorem names_costs_height_of_reflTransGen (h : Relation.ReflTransGen s.Steps r r')
    (hr : r.tableau.IsWellFormed) :
    r'.tableau.names = r.tableau.names ∧ r'.tableau.costs = r.tableau.costs ∧
      r'.tableau.height = r.tableau.height := by
  have hinvariant := invariant_of_reflTransGen (P := fun t => t.IsWellFormed ∧
    t.names = r.tableau.names ∧ t.costs = r.tableau.costs ∧ t.height = r.tableau.height)
    (fun r₁ r₂ hstep h₁ => ?_) h ⟨hr, rfl, rfl, rfl⟩
  · exact hinvariant.2
  · obtain ⟨hwf, hnames, hcosts, hheight⟩ := h₁
    obtain ⟨hnames', hcosts', hheight'⟩ := hstep.names_costs_height hwf
    exact ⟨hstep.isWellFormed hwf, hnames'.trans hnames, hcosts'.trans hcosts,
      hheight'.trans hheight⟩

/-- The next moves of a run are its steps, up to the one that halts it. -/
theorem walk_spec (s : Solver) (n : Nat) (r : Run α) :
    Relation.ReflTransGen s.Steps r (s.walk n r).run ∧
      ∀ status costs, (s.walk n r).outcome = .ok (status, costs) →
        s.next (s.walk n r).run = .ok (.halt status, costs) := by
  induction n generalizing r with
  | zero =>
    rw [walk]
    split
    · exact ⟨.refl, fun _ _ h => by cases h⟩
    · next status costs hnext => exact ⟨.refl, fun _ _ h => by cases h; exact hnext⟩
    · exact ⟨.refl, fun _ _ h => by cases h⟩
  | succ n ih =>
    rw [walk]
    split
    · exact ⟨.refl, fun _ _ h => by cases h⟩
    · next status costs hnext => exact ⟨.refl, fun _ _ h => by cases h; exact hnext⟩
    · next p costs hnext =>
      dsimp only
      split
      · exact ⟨.refl, fun _ _ h => by cases h⟩
      · next r' hadvance =>
        obtain ⟨hreaches, hlast⟩ := ih r'
        exact ⟨.head ⟨p, costs, hnext, hadvance⟩ hreaches, hlast⟩

/-- A run from a well-formed tableau halts or reaches the limit on pivots. -/
theorem walk_outcome (s : Solver) (n : Nat) (hr : r.tableau.IsWellFormed) :
    (∃ status costs, (s.walk n r).outcome = .ok (status, costs)) ∨
      (s.walk n r).outcome = Outcome.refuse (.iterationLimit s.maxIterations) := by
  induction n generalizing r with
  | zero =>
    obtain ⟨move, costs, hnext⟩ := s.exists_next_eq_ok hr
    rw [walk, hnext]
    cases move with
    | halt status => exact .inl ⟨status, costs, rfl⟩
    | pivot p => exact .inr rfl
  | succ n ih =>
    obtain ⟨move, costs, hnext⟩ := s.exists_next_eq_ok hr
    rw [walk, hnext]
    cases move with
    | halt status => exact .inl ⟨status, costs, rfl⟩
    | pivot p =>
      obtain ⟨r', hadvance⟩ := exists_advance_eq_ok hr.toIsValid (readsOff_of_next hr hnext).1
      have hstep : s.Steps r r' := ⟨p, costs, hnext, hadvance⟩
      simp only [hadvance]
      exact ih (hstep.isWellFormed hr)

/-! ### Whole runs -/

omit [Scalar α] in
/-- The checks before a run accept exactly the well-formed tableaux. -/
theorem ready_eq_ok {t : Tableau α} : ready t = .ok () ↔ t.IsWellFormed := by
  rw [ready, Outcome.bind_unit_eq_ok, Tableau.validate_eq_ok, Outcome.bind_eq_ok]
  constructor
  · rintro ⟨ht, columns, hcolumns, -⟩
    exact ⟨ht, (Tableau.basicColumns_eq_ok.1 hcolumns).1⟩
  · intro ht
    exact ⟨ht.toIsValid, _, ht.basicColumns_eq, rfl⟩

/-- The solution is read off the last tableau of a run. -/
structure EndsIn (s : Solver) (t : Tableau α) (initialRows : Rows α) (r : Run α)
    (solution : Solution α) : Prop where
  run_eq : (s.walk s.maxIterations (.start t)).run = r
  reaches : Relation.ReflTransGen s.Steps (.start t) r
  next_eq : s.next r = .ok (.halt solution.status, solution.reducedCosts)
  tableau_eq : solution.tableau = r.tableau
  steps_eq : solution.steps = r.trail.reverse
  initialRows_eq : solution.initialRows = initialRows
  alternates_eq : solution.alternates = [] ∨
    Solution.alternatesOf r.tableau solution.reducedCosts = .ok solution.alternates
  report_eq : solution.status = .optimal →
    Solution.alternatesOf r.tableau solution.reducedCosts = .ok solution.alternates ∧
      Solution.degenerateBasis r.tableau = solution.degenerate
  analysis_eq : solution.status = .optimal →
    Analysis.compute r.tableau solution.reducedCosts = .ok solution.analysis

/-- A solution is given only at the end of a run from a well-formed tableau. -/
theorem run_eq_ok {t : Tableau α} {initialRows : Rows α} {solution : Solution α}
    (h : (s.run t initialRows).outcome = .ok solution) :
    t.IsWellFormed ∧ ∃ r, s.EndsIn t initialRows r solution := by
  unfold run at h
  split at h
  · cases h
  · next hready =>
    refine ⟨ready_eq_ok.1 hready, (s.walk s.maxIterations (.start t)).run, ?_⟩
    obtain ⟨hreaches, hlast⟩ := walk_spec s s.maxIterations (.start t)
    dsimp only at h
    split at h
    · cases h
    · next solution' hconclude =>
      cases h
      obtain ⟨⟨status, costs⟩, houtcome, h⟩ := Outcome.bind_eq_ok.1 hconclude
      have hnext := hlast status costs houtcome
      dsimp only at h
      split at h
      · next hoptimal =>
        obtain ⟨alternates, halternates, h⟩ := Outcome.bind_eq_ok.1 h
        obtain ⟨analysis, hanalysis, h⟩ := Outcome.bind_eq_ok.1 h
        cases h
        exact ⟨rfl, hreaches, hnext, rfl, rfl, rfl, .inr halternates, fun _ => ⟨halternates, rfl⟩,
          fun _ => hanalysis⟩
      · next hoptimal =>
        cases h
        exact ⟨rfl, hreaches, hnext, rfl, rfl, rfl, .inl rfl, fun h => absurd h hoptimal,
          fun h => absurd h hoptimal⟩

theorem EndsIn.isWellFormed {t : Tableau α} {initialRows : Rows α} {solution : Solution α}
    (h : s.EndsIn t initialRows r solution) (ht : t.IsWellFormed) : r.tableau.IsWellFormed :=
  invariant_of_reflTransGen (fun _ _ hstep => hstep.isWellFormed) h.reaches ht

/-- The variables of a solution are those of the tableau that has been run, and the one that can
grow without limit is among them. -/
theorem names_of_run {t : Tableau α} {initialRows : Rows α} {solution : Solution α}
    (h : (s.run t initialRows).outcome = .ok solution) :
    solution.tableau.IsWellFormed ∧ solution.tableau.names = t.names ∧
      ∀ column name, solution.status = .unbounded column name → t.names[column]? = some name := by
  obtain ⟨hwf, last, hend⟩ := run_eq_ok h
  have hnames : last.tableau.names = t.names :=
    (names_costs_height_of_reflTransGen hend.reaches hwf).1
  rw [hend.tableau_eq]
  refine ⟨hend.isWellFormed hwf, hnames, fun column name hstatus => ?_⟩
  have hnext := hend.next_eq
  rw [hstatus] at hnext
  obtain ⟨-, ⟨-, hmove⟩ | ⟨-, selection, -, hmove⟩⟩ := next_cases hnext
  · cases hmove
  · cases hmove with
    | unbounded hname => exact hnames ▸ hname

/-- An optimal solution is read off the tableau that its run has reached, with the reduced costs
that this tableau has. -/
theorem reports_of_run {t : Tableau α} {initialRows : Rows α} {solution : Solution α}
    (h : (s.run t initialRows).outcome = .ok solution) (hoptimal : solution.status = .optimal) :
    solution.tableau = (s.walk s.maxIterations (.start t)).run.tableau ∧
      ReducedCosts.compute solution.tableau = .ok solution.reducedCosts ∧
      Solution.alternatesOf solution.tableau solution.reducedCosts = .ok solution.alternates ∧
      Solution.degenerateBasis solution.tableau = solution.degenerate := by
  obtain ⟨-, r, hend⟩ := run_eq_ok h
  obtain ⟨hcosts, -⟩ := next_cases hend.next_eq
  obtain ⟨halternates, hdegenerate⟩ := hend.report_eq hoptimal
  rw [hend.tableau_eq, hend.run_eq]
  exact ⟨rfl, hcosts, halternates, hdegenerate⟩

/-- A run that halts gives a solution. -/
theorem exists_run_eq_ok (s : Solver) {t : Tableau α} (ht : t.IsWellFormed) (initialRows : Rows α)
    {status : Status} {costs : ReducedCosts α}
    (houtcome : (s.walk s.maxIterations (.start t)).outcome = .ok (status, costs)) :
    ∃ solution, (s.run t initialRows).outcome = .ok solution := by
  obtain ⟨hreaches, hlast⟩ := walk_spec s s.maxIterations (.start t)
  have hend : (s.walk s.maxIterations (.start t)).run.tableau.IsWellFormed :=
    invariant_of_reflTransGen (fun _ _ hstep => hstep.isWellFormed) hreaches ht
  obtain ⟨hcosts, -⟩ := next_cases (hlast status costs houtcome)
  have hlen := ReducedCosts.length_reduced hend hcosts
  obtain ⟨alternates, halternates⟩ := Solution.exists_alternatesOf_eq_ok hend.toIsValid hlen
  obtain ⟨analysis, hanalysis⟩ := Analysis.exists_compute_eq_ok hend.toIsValid hlen
  have hconclude : ∃ solution, conclude (s.walk s.maxIterations (.start t)) initialRows =
      .ok solution := by
    rw [conclude, houtcome, Outcome.ok_bind]
    dsimp only
    split
    · rw [halternates, Outcome.ok_bind, hanalysis]
      exact ⟨_, rfl⟩
    · exact ⟨_, rfl⟩
  obtain ⟨solution, hsolution⟩ := hconclude
  rw [run, ready_eq_ok.2 ht]
  dsimp only
  rw [hsolution]
  exact ⟨solution, rfl⟩

/-- A run that is cut off gives no solution. -/
theorem run_eq_error (s : Solver) {t : Tableau α} (ht : t.IsWellFormed) (initialRows : Rows α)
    {failure : Failure} (houtcome : (s.walk s.maxIterations (.start t)).outcome = .error failure) :
    (s.run t initialRows).outcome = .error failure := by
  rw [run, ready_eq_ok.2 ht]
  dsimp only
  rw [conclude, houtcome]
  rfl

/-- A run from a well-formed tableau gives a solution or reaches the limit on pivots. -/
theorem run_outcome (s : Solver) {t : Tableau α} (ht : t.IsWellFormed) (initialRows : Rows α) :
    (∃ solution, (s.run t initialRows).outcome = .ok solution) ∨
      (s.run t initialRows).outcome = Outcome.refuse (.iterationLimit s.maxIterations) := by
  rcases walk_outcome s s.maxIterations (r := .start t) ht with ⟨status, costs, houtcome⟩ | houtcome
  · exact .inl (s.exists_run_eq_ok ht initialRows houtcome)
  · exact .inr (s.run_eq_error ht initialRows houtcome)

end Solver

end

/-! ### Exact arithmetic -/

namespace Solver

variable {s : Solver} {r r' : Run ℚ} {costs : ReducedCosts ℚ}

theorem Steps.isCanonical (h : s.Steps r r') (hr : r.tableau.IsCanonical) :
    r'.tableau.IsCanonical ∧ r.tableau.SameProgram r'.tableau := by
  obtain ⟨p, costs, hnext, hadvance⟩ := h
  obtain ⟨hp, hsign⟩ := readsOff_of_next hr.toIsWellFormed hnext
  have happly := apply_of_advance hadvance
  have hne : p.element ≠ 0 := by
    rcases hsign with hneg | hpos
    · exact (isNegative_iff.1 hneg).ne
    · exact (isPositive_iff.1 hpos).ne'
  exact ⟨p.isCanonical_apply hr hp hne happly, p.sameProgram_apply hr.toIsValid hp hne happly⟩

/-- A run keeps a canonical tableau canonical, and every tableau of it states the same program. -/
theorem isCanonical_of_reflTransGen (h : Relation.ReflTransGen s.Steps r r')
    (hr : r.tableau.IsCanonical) :
    r'.tableau.IsCanonical ∧ r.tableau.SameProgram r'.tableau := by
  refine invariant_of_reflTransGen (P := fun t => t.IsCanonical ∧ r.tableau.SameProgram t)
    (fun r₁ r₂ hstep h₁ => ?_) h ⟨hr, .refl _⟩
  obtain ⟨hcanonical, hsame⟩ := hstep.isCanonical h₁.1
  exact ⟨hcanonical, h₁.2.trans hsame⟩

end Solver

end LinProg
