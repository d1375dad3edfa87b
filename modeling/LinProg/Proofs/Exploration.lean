import LinProg.Proofs.Run
import LinProg.BranchAndBound

/-!
# The course of a search

A search visits one node after another, the next one on its stack, as long as each visit succeeds.
`Steps` is one such visit, and every search is a sequence of them with an end: the stack is empty,
or the limit on nodes is reached, or the visit of the next node fails. What a visit finds is read
off the run of the relaxation, and where it splits the relaxation both halves are revisions of the
last tableau of that run.
-/

namespace LinProg

namespace BranchAndBound

variable {α : Type} [Scalar α] {b : BranchAndBound α} {integer : List Bool}

/-! ### Visits one after another -/

/-- A search visits its next node. -/
def Steps (b : BranchAndBound α) (integer : List Bool) (s s' : Search α) : Prop :=
  ∃ node rest visit, s.stack = node :: rest ∧
    (b.visit integer s.bound (s.visited + 1) node).outcome = .ok visit ∧
    s' = record s node rest (b.visit integer s.bound (s.visited + 1) node).events visit

/-- How a search ends that may visit the given number of nodes in all. -/
inductive EndsWith (b : BranchAndBound α) (integer : List Bool) (limit : Nat) (s : Search α) :
    Outcome (IntegerSolution α) → Prop where
  | found {best : IntegerSolution α} (hstack : s.stack = []) (hbest : s.best = some best) :
      EndsWith b integer limit s (.ok { best with nodes := s.visited })
  | exhausted (hstack : s.stack = []) (hbest : s.best = none) :
      EndsWith b integer limit s (.refuse .noIntegerSolution)
  | limited {node : Node α} {rest : List (Node α)} (hstack : s.stack = node :: rest)
      (hvisited : s.visited = limit) :
      EndsWith b integer limit s (.refuse (.iterationLimit b.maxNodes))
  | failed {node : Node α} {rest : List (Node α)} {failure : Failure}
      (hstack : s.stack = node :: rest)
      (hvisit : (b.visit integer s.bound (s.visited + 1) node).outcome = .error failure) :
      EndsWith b integer limit s (.error failure)

omit [Scalar α] in
theorem visited_record (s : Search α) (node : Node α) (rest : List (Node α))
    (events : List (Event α)) (visit : Visit α) :
    (record s node rest events visit).visited = s.visited + 1 := by
  cases visit <;> rfl

theorem explore_nil (b : BranchAndBound α) {s : Search α} (hstack : s.stack = [])
    (remaining limit : Nat) :
    b.EndsWith integer limit s (b.explore integer remaining s).outcome := by
  rw [explore.eq_def]
  dsimp only
  rw [hstack]
  dsimp only
  split
  · next best hbest => exact .found hstack hbest
  · next hbest => exact .exhausted hstack hbest

/-- A search that may still visit a node goes on with what it finds there. -/
theorem explore_cons (b : BranchAndBound α) {s : Search α} {node : Node α} {rest : List (Node α)}
    (hstack : s.stack = node :: rest) (remaining : Nat) :
    (b.explore integer (remaining + 1) s).outcome =
      (b.visit integer s.bound (s.visited + 1) node).outcome >>= fun visit =>
        (b.explore integer remaining (record s node rest
          (b.visit integer s.bound (s.visited + 1) node).events visit)).outcome := by
  rw [explore.eq_def]
  dsimp only
  rw [hstack]
  dsimp only
  cases (b.visit integer s.bound (s.visited + 1) node).outcome <;> rfl

/-- A search visits nodes up to the state in which it ends. -/
theorem explore_spec (b : BranchAndBound α) (integer : List Bool) (remaining : Nat) (s : Search α) :
    ∃ s', Relation.ReflTransGen (b.Steps integer) s s' ∧
      b.EndsWith integer (s.visited + remaining) s' (b.explore integer remaining s).outcome := by
  induction remaining generalizing s with
  | zero =>
    refine ⟨s, .refl, ?_⟩
    cases hstack : s.stack with
    | nil => exact b.explore_nil hstack 0 _
    | cons node rest =>
      rw [explore.eq_def]
      dsimp only
      rw [hstack]
      exact .limited hstack rfl
  | succ remaining ih =>
    cases hstack : s.stack with
    | nil => exact ⟨s, .refl, b.explore_nil hstack _ _⟩
    | cons node rest =>
      rw [b.explore_cons hstack]
      cases hvisit : (b.visit integer s.bound (s.visited + 1) node).outcome with
      | error failure => exact ⟨s, .refl, .failed hstack hvisit⟩
      | ok visit =>
        obtain ⟨s', hreaches, hends⟩ := ih
          (record s node rest (b.visit integer s.bound (s.visited + 1) node).events visit)
        rw [visited_record, Nat.add_right_comm, Nat.add_assoc] at hends
        exact ⟨s', .head ⟨node, rest, visit, hstack, hvisit, rfl⟩ hreaches, hends⟩

/-- The search from a valid tableau with a requirement for each structural variable begins with its
first node. -/
theorem solve_eq_explore (b : BranchAndBound α) {t : Tableau α} (ht : t.IsValid)
    (hlen : integer.length = t.structural) :
    b.solve t integer = b.explore integer b.maxNodes (b.start t) := by
  rw [solve, Recorded.andThen, Recorded.outcome_quiet, Tableau.validate_eq_ok.2 ht]
  dsimp only
  rw [Recorded.andThen, Recorded.outcome_quiet, (Dimension.check_eq_ok (u := ())).2 hlen.symm]
  rfl

/-- The search from a valid tableau with a requirement for each structural variable. -/
theorem solve_spec (b : BranchAndBound α) {t : Tableau α} (ht : t.IsValid)
    (hlen : integer.length = t.structural) :
    ∃ s, Relation.ReflTransGen (b.Steps integer) (b.start t) s ∧
      b.EndsWith integer b.maxNodes s (b.solve t integer).outcome := by
  obtain ⟨s, hreaches, hends⟩ := b.explore_spec integer b.maxNodes (b.start t)
  refine ⟨s, hreaches, ?_⟩
  rw [b.solve_eq_explore ht hlen]
  rwa [start, Nat.zero_add] at hends

/-- Without a requirement for each structural variable there is no search. -/
theorem solve_of_length_ne (b : BranchAndBound α) {t : Tableau α} (ht : t.IsValid)
    (hlen : integer.length ≠ t.structural) : (b.solve t integer).outcome =
      Outcome.refuse
        (.dimensionMismatch .integerRequirements t.structural integer.length) := by
  rw [solve, Recorded.outcome_andThen, Recorded.outcome_quiet, Tableau.validate_eq_ok.2 ht,
    Outcome.ok_bind, Recorded.outcome_andThen, Recorded.outcome_quiet, Dimension.check,
    if_neg hlen.symm]
  rfl

/-- What visits preserve holds in every state of a search if it holds at its beginning. -/
theorem invariant_of_reflTransGen {P : Search α → Prop}
    (hstep : ∀ s s' : Search α, b.Steps integer s s' → P s → P s') {s s' : Search α}
    (h : Relation.ReflTransGen (b.Steps integer) s s') (hs : P s) : P s' := by
  induction h with
  | refl => exact hs
  | tail _ hlast ih => exact hstep _ _ hlast ih

/-- A search that gives a solution succeeds at its next node, and gives it from there. -/
theorem exists_visit_of_explore_eq_ok {s : Search α} {remaining : Nat}
    {solution : IntegerSolution α} (h : (b.explore integer remaining s).outcome = .ok solution)
    {node : Node α} {rest : List (Node α)} (hstack : s.stack = node :: rest) :
    ∃ visit remaining', (b.visit integer s.bound (s.visited + 1) node).outcome = .ok visit ∧
      (b.explore integer remaining' (record s node rest
        (b.visit integer s.bound (s.visited + 1) node).events visit)).outcome = .ok solution := by
  cases remaining with
  | zero =>
    rw [explore.eq_def] at h
    dsimp only at h
    rw [hstack] at h
    cases h
  | succ remaining =>
    rw [b.explore_cons hstack] at h
    obtain ⟨visit, hvisit, hrest⟩ := Outcome.bind_eq_ok.1 h
    exact ⟨visit, remaining, hvisit, hrest⟩

/-- From each of its states a search gives the same solution. -/
theorem exists_explore_of_reflTransGen {s s' : Search α}
    (hreaches : Relation.ReflTransGen (b.Steps integer) s s') {remaining : Nat}
    {solution : IntegerSolution α} (h : (b.explore integer remaining s).outcome = .ok solution) :
    ∃ remaining', (b.explore integer remaining' s').outcome = .ok solution := by
  refine invariant_of_reflTransGen (P := fun s => ∃ remaining',
    (b.explore integer remaining' s).outcome = .ok solution) ?_ hreaches ⟨remaining, h⟩
  rintro s _ ⟨node, rest, visit, hstack, hvisit, rfl⟩ ⟨remaining, h⟩
  obtain ⟨visit', remaining', hvisit', hrest⟩ := exists_visit_of_explore_eq_ok h hstack
  rw [hvisit, Except.ok.injEq] at hvisit'
  exact ⟨remaining', hvisit' ▸ hrest⟩

/-! ### One visit -/

/-- The halves of a relaxation are revisions of its last tableau. -/
structure IsSplit (solution : Solution α) (column : Nat) (value : α) (snapshot : Snapshot α)
    (lower upper : Revision α) : Prop where
  snapshot_eq : solution.snapshot = .ok snapshot
  lower_eq : snapshot.apply
    (boundRequest solution.tableau.width column 1 (Arithmetic.floor value)) = .ok lower
  upper_eq : snapshot.apply
    (boundRequest solution.tableau.width column (-1) (-Arithmetic.ceil value)) = .ok upper

theorem split_eq_ok {solution : Solution α} {column : Nat} {value : α} {lower upper : Revision α} :
    (split solution column value).outcome = .ok (lower, upper) ↔
      ∃ snapshot, IsSplit solution column value snapshot lower upper := by
  unfold split
  simp only [Recorded.andThen_eq_ok, Recorded.outcome_quiet, Snapshot.revise,
    Recorded.outcome_andEvent]
  constructor
  · rintro ⟨snapshot, hsnapshot, upper', hupper, lower', hlower, h⟩
    cases h
    exact ⟨snapshot, hsnapshot, hlower, hupper⟩
  · rintro ⟨snapshot, h⟩
    exact ⟨snapshot, h.snapshot_eq, upper, h.upper_eq, lower, h.lower_eq, rfl⟩

/-- A search for a fractional value succeeds where the basic variables can be located. -/
theorem exists_fractional?_eq_ok {t : Tableau α} (ht : t.IsWellFormed) (integer : List Bool) :
    ∃ found, fractional? integer t = .ok found := by
  rw [fractional?, ht.basicColumns_eq, Outcome.ok_bind]
  exact ⟨_, rfl⟩

/-- A fractional value belongs to a basic variable that is required to be whole. -/
theorem fractional?_eq_some {t : Tableau α} (ht : t.IsWellFormed) {column : Nat} {value : α}
    (h : fractional? integer t = .ok (some (column, value))) :
    ∃ i < t.height, t.basicColumn i = column ∧ t.rhs[i]? = some value ∧
      integer[column]? = some true ∧ Scalar.isInteger value = false := by
  rw [fractional?, ht.basicColumns_eq, Outcome.ok_bind, Outcome.pure_eq, Except.ok.injEq] at h
  obtain ⟨i, hi⟩ := List.mem_iff_getElem?.1 (List.mem_of_find?_eq_some h)
  have hrequired := List.find?_some h
  rw [Bool.and_eq_true, beq_iff_eq, Bool.not_eq_true'] at hrequired
  obtain ⟨hcolumn, hvalue⟩ := List.getElem?_zip_eq_some.1 hi
  have hlt : i < t.height := ht.length_rhs ▸ (List.getElem?_eq_some_iff.1 hvalue).1
  rw [Tableau.getD_map_idxOf ht.toIsValid hlt, Option.some_inj] at hcolumn
  exact ⟨i, hlt, hcolumn, hvalue, hrequired⟩

/-- The values of the first variables of a valid tableau can be read off. -/
theorem exists_assignment_of_isValid {t : Tableau α} (ht : t.IsValid) (n : Nat) :
    ∃ named, assignment n t = .ok named := by
  rw [assignment, Tableau.values_eq_ok ht, Outcome.ok_bind]
  exact ⟨_, rfl⟩

/-- An optimal solution has to be split: it is better than the bound, and a value that is required
to be whole is not. -/
def NeedsSplit (integer : List Bool) (bound : Option α) (solution : Solution α) : Prop :=
  isPruned solution.objective bound = false ∧
    ∃ column value, fractional? integer solution.tableau = .ok (some (column, value))

/-- A solution that has to be split is split at the first of these values. -/
theorem examine_of_fractional? {bound : Option α} {solution : Solution α}
    (hwf : solution.tableau.IsWellFormed) (hpruned : isPruned solution.objective bound = false)
    {column : Nat} {value : α}
    (hfound : fractional? integer solution.tableau = .ok (some (column, value)))
    (number depth : Nat) :
    (examine integer bound number depth solution).outcome =
      (fun (lower, upper) => .split lower upper) <$> (split solution column value).outcome := by
  obtain ⟨i, hi, hbasic, -⟩ := fractional?_eq_some hwf hfound
  have hname : column < solution.tableau.names.length := hbasic ▸ hwf.basicColumn_lt hi
  unfold examine
  dsimp only
  rw [if_neg (hpruned ▸ Bool.false_ne_true), Recorded.outcome_andThen,
    Recorded.outcome_quiet, hfound, Outcome.ok_bind]
  dsimp only
  rw [Recorded.outcome_andThen, Recorded.outcome_quiet, List.getElem?_eq_getElem hname,
    Outcome.inRange, Outcome.ok_bind, Recorded.outcome_andThen, Outcome.ok_bind,
    Recorded.outcome_andThen]
  cases (split solution column value).outcome <;> rfl

/-- An optimal solution that need not be split is a leaf of the search. -/
theorem exists_examine_of_not_needsSplit {bound : Option α} {solution : Solution α}
    (hwf : solution.tableau.IsWellFormed) (hneeds : ¬ NeedsSplit integer bound solution)
    (number depth : Nat) :
    ∃ visit, (examine integer bound number depth solution).outcome = .ok visit ∧
      ∀ lower upper, visit ≠ .split lower upper := by
  unfold examine
  dsimp only
  split
  · exact ⟨.pruned, rfl, fun _ _ => nofun⟩
  · next hpruned =>
    obtain ⟨found, hfound⟩ := exists_fractional?_eq_ok hwf integer
    rw [Recorded.outcome_andThen, Recorded.outcome_quiet, hfound, Outcome.ok_bind]
    cases found with
    | none =>
      obtain ⟨named, hnamed⟩ := exists_assignment_of_isValid hwf.toIsValid integer.length
      refine ⟨.integral solution.objective named solution.tableau, ?_, fun _ _ => nofun⟩
      dsimp only
      rw [Recorded.outcome_andThen, Outcome.ok_bind, Recorded.outcome_quiet, hnamed]
      rfl
    | some p => exact absurd ⟨Bool.not_eq_true _ ▸ hpruned, p.1, p.2, hfound⟩ hneeds

/-- What is found at a node, from the solution of its relaxation. -/
inductive Finds (integer : List Bool) (bound : Option α) (solution : Solution α) :
    Visit α → Prop where
  | infeasible {row : Nat} {name : String} (hstatus : solution.status = .infeasible row name) :
      Finds integer bound solution .infeasible
  | pruned (hstatus : solution.status = .optimal)
      (hpruned : isPruned solution.objective bound = true) : Finds integer bound solution .pruned
  | integral {named : List (String × α)} (hstatus : solution.status = .optimal)
      (hpruned : isPruned solution.objective bound = false)
      (hfound : fractional? integer solution.tableau = .ok none)
      (hnamed : assignment integer.length solution.tableau = .ok named) :
      Finds integer bound solution (.integral solution.objective named solution.tableau)
  | split {column : Nat} {value : α} {snapshot : Snapshot α} {lower upper : Revision α}
      (hstatus : solution.status = .optimal)
      (hpruned : isPruned solution.objective bound = false)
      (hfound : fractional? integer solution.tableau = .ok (some (column, value)))
      (hsplit : IsSplit solution column value snapshot lower upper) :
      Finds integer bound solution (.split lower upper)

theorem finds_of_examine {bound : Option α} {number depth : Nat} {solution : Solution α}
    {visit : Visit α} (hstatus : solution.status = .optimal)
    (h : (examine integer bound number depth solution).outcome = .ok visit) :
    Finds integer bound solution visit := by
  unfold examine at h
  dsimp only at h
  split at h
  · next hpruned =>
    cases h
    exact .pruned hstatus hpruned
  · next hpruned =>
    have hpruned : isPruned solution.objective bound = false := Bool.not_eq_true _ ▸ hpruned
    obtain ⟨found, hfound, h⟩ := Recorded.andThen_eq_ok.1 h
    cases found with
    | none =>
      obtain ⟨-, -, h⟩ := Recorded.andThen_eq_ok.1 h
      obtain ⟨named, hnamed, h⟩ := Outcome.bind_eq_ok.1 h
      cases h
      exact .integral hstatus hpruned hfound hnamed
    | some p =>
      obtain ⟨name, -, h⟩ := Recorded.andThen_eq_ok.1 h
      obtain ⟨-, -, h⟩ := Recorded.andThen_eq_ok.1 h
      obtain ⟨⟨lower, upper⟩, hsplit, h⟩ := Recorded.andThen_eq_ok.1 h
      cases h
      obtain ⟨snapshot, hsplit⟩ := split_eq_ok.1 hsplit
      exact .split hstatus hpruned hfound hsplit

/-- What is found at a node is read off a run of its relaxation that comes to an end. -/
theorem finds_of_visit {bound : Option α} {number : Nat} {node : Node α} {visit : Visit α}
    (h : (b.visit integer bound number node).outcome = .ok visit) :
    ∃ solution, (b.solver.resolve node.revision).outcome = .ok solution ∧
      Finds integer bound solution visit := by
  obtain ⟨solution, hsolution, h⟩ := Recorded.andThen_eq_ok.1 h
  refine ⟨solution, hsolution, ?_⟩
  cases hstatus : solution.status with
  | optimal =>
    rw [hstatus] at h
    exact finds_of_examine hstatus h
  | infeasible row name =>
    rw [hstatus] at h
    cases h
    exact .infeasible hstatus
  | unbounded column name =>
    rw [hstatus] at h
    cases h

end BranchAndBound

end LinProg
