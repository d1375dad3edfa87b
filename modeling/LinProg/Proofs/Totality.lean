import LinProg.Proofs.Readiness
import LinProg.Proofs.Words

/-!
# Every input is answered

A tableau may be of any kind: with rows of different lengths, with names that are unknown or occur
twice, with numbers that are infinite or undefined, or with nothing in it. The checks before the
first pivot refuse what is not well-formed, and from then on every position is inside its list,
whatever the numbers are. The same holds at every node of a search: the halves of a node have the
shape of a tableau again, so a search is refused only at a limit, at an unbounded relaxation, or at
its first node for the basic variables or the slack columns that it was given.
-/

namespace LinProg

open Outcome

/-! ### Checks before the first pivot -/

/-- The causes for which a tableau is not run: lengths that do not agree, a name that occurs twice,
or a basic variable that is not among the variables. -/
def Refusal.IsMalformed : Refusal → Prop
  | .dimensionMismatch .. | .inconsistentBasis _ | .duplicateVariable _ => True
  | _ => False

theorem locateBasis_answers (names basis : List String) :
    (locateBasis names basis).Answers fun cause => ∃ name, cause = .inconsistentBasis name := by
  refine answers_mapM fun name _ => ?_
  split
  · exact answers_ok _
  · exact answers_refuse ⟨name, rfl⟩

theorem Tableau.validate_answers {α : Type} (t : Tableau α) :
    t.validate.Answers Refusal.IsMalformed := by
  have hcheck : ∀ what expected found,
      (Dimension.check what expected found).Answers Refusal.IsMalformed :=
    fun what expected found => Dimension.answers_check trivial
  refine (hcheck _ _ _).bind fun _ _ => (hcheck _ _ _).bind fun _ _ => ?_
  refine (answers_forM fun row _ => hcheck _ _ _).bind fun _ _ => (hcheck _ _ _).bind fun _ _ => ?_
  dsimp only
  by_cases hwidth : t.width < t.height
  · rw [if_pos hwidth]
    exact Answers.bind (answers_refuse (P := Refusal.IsMalformed) trivial) fun _ h => nomatch h
  · rw [if_neg hwidth]
    cases firstDuplicate t.names with
    | none => exact answers_ok ()
    | some name => exact answers_refuse (P := Refusal.IsMalformed) trivial

namespace Solver

variable {α : Type}

theorem ready_answers (t : Tableau α) : (ready t).Answers Refusal.IsMalformed := by
  refine t.validate_answers.bind fun _ _ => Answers.bind ?_ fun _ _ => answers_ok ()
  refine (locateBasis_answers t.names t.basis).mono ?_
  rintro _ ⟨name, rfl⟩
  trivial

/-- A valid tableau can be refused only for a basic variable. -/
theorem ready_answers_of_isValid {t : Tableau α} (ht : t.IsValid) :
    (ready t).Answers fun cause => ∃ name, cause = .inconsistentBasis name := by
  rw [ready, Tableau.validate_eq_ok.2 ht, ok_bind]
  exact (locateBasis_answers t.names t.basis).bind fun _ _ => answers_ok ()

variable [Scalar α]

/-! ### Runs -/

/-- A run gives a solution, or is cut off, or is refused before its first pivot. -/
theorem run_cases (s : Solver) (t : Tableau α) (initialRows : Rows α) :
    (∃ solution, (s.run t initialRows).outcome = .ok solution) ∨
      (s.run t initialRows).outcome = refuse (.iterationLimit s.maxIterations) ∨
      ∃ cause : Refusal, cause.IsMalformed ∧ ready t = refuse cause ∧
        s.run t initialRows = .quiet (refuse cause) := by
  rcases answers_iff.1 (ready_answers t) with ⟨⟨⟩, hready⟩ | ⟨cause, hcause, hready⟩
  · rcases s.run_outcome (ready_eq_ok.1 hready) initialRows with hsolution | hlimit
    · exact .inl hsolution
    · exact .inr (.inl hlimit)
  · refine .inr (.inr ⟨cause, hcause, hready, ?_⟩)
    rw [run, hready]
    rfl

/-- A tableau that is refused for its shape has been refused by the checks before the first
pivot. -/
theorem ready_eq_refuse_of_run (s : Solver) {t : Tableau α} {initialRows : Rows α} {cause : Refusal}
    (hcause : cause.IsMalformed) (h : (s.run t initialRows).outcome = refuse cause) :
    ready t = refuse cause ∧ (s.run t initialRows).events = [] := by
  rcases s.run_cases t initialRows with ⟨solution, hok⟩ | hlimit | ⟨cause', -, hready, hrun⟩
  · rw [hok] at h
    cases h
  · rw [hlimit] at h
    cases h
    cases hcause
  · rw [hrun] at h
    cases h
    exact ⟨hready, by rw [hrun]; rfl⟩

end Solver

/-! ### Nodes of a search -/

variable {α : Type} [Scalar α]

/-- The cause names a slack column of the initial coefficients that is not its unit column. -/
def Revision.BlamesSlack (r : Revision α) (cause : Refusal) : Prop :=
  ∃ name column, cause = .slackColumnChanged name column ∧ r.tableau.structural ≤ column ∧
    r.tableau.names[column]? = some name ∧
    ¬ r.initialRows.HasUnitColumn column (column - r.tableau.structural)

/-- A snapshot that is refused is refused for a slack column. -/
theorem Revision.IsRunnable.capture_answers {r : Revision α} {n : Nat} (hr : r.IsRunnable n) :
    (Snapshot.capture r.tableau r.initialRows).Answers r.BlamesSlack := by
  obtain ⟨hvalid, hshape, -⟩ := hr
  obtain ⟨inverse, hinverse, -⟩ := hvalid.hasShape.basisInverse_eq_ok hvalid.height_le_width
  rw [Snapshot.capture, Tableau.validate_eq_ok.2 hvalid, ok_bind,
    (Dimension.check_eq_ok (u := ())).2 hshape.length_eq.symm, ok_bind,
    Rows.checkWidths_eq_ok.2 hshape.length_row, ok_bind, hinverse]
  refine Answers.bind (answers_forM ?_) fun _ _ => answers_ok _
  rintro ⟨name, j⟩ hmem
  have hname : r.tableau.names[j]? = some name := List.mem_zipIdx_iff_getElem?.1 hmem
  have hj : j < r.tableau.width := (List.getElem?_eq_some_iff.1 hname).1
  dsimp only
  split
  · next hslack =>
    rw [hshape.column_eq_ok hj, ok_bind]
    split
    · next hunit =>
      refine answers_refuse ⟨name, j, rfl, hslack, hname, ?_⟩
      rintro ⟨entries, hentries, hunit'⟩
      rw [hshape.column_eq_ok hj, Except.ok.injEq] at hentries
      rw [hentries, hunit'] at hunit
      cases hunit
    · exact answers_ok ()
  · exact answers_ok ()

namespace BranchAndBound

variable {integer : List Bool}

/-- The causes for which the visit of a node may be refused. -/
def StopsFor (b : BranchAndBound α) : Refusal → Prop
  | .inconsistentBasis _ | .slackColumnChanged .. | .unbounded _ => True
  | .iterationLimit limit => limit = b.solver.maxIterations
  | _ => False

/-- What an outcome says of a visit: it has been refused for one of these causes, or any halves are
ready. -/
def VisitAnswers (b : BranchAndBound α) (n : Nat) (o : Outcome (Visit α)) : Prop :=
  (∃ visit, o = .ok visit ∧ visit.IsReady n) ∨
    ∃ cause, b.StopsFor cause ∧ o = refuse cause

variable [LawfulUnits α]

omit [LawfulUnits α] in
/-- A solution that has to be split is refused where its snapshot is. -/
theorem examine_of_snapshot_eq_refuse {solution : Solution α} (hwf : solution.tableau.IsWellFormed)
    {bound : Option α} (hneeds : NeedsSplit integer bound solution) {cause : Refusal}
    (hsnapshot : solution.snapshot = refuse cause) (number depth : Nat) :
    (examine integer bound number depth solution).outcome = refuse cause := by
  obtain ⟨hpruned, column, value, hfound⟩ := hneeds
  rw [examine_of_fractional? hwf hpruned hfound, split, Recorded.outcome_andThen,
    Recorded.outcome_quiet, hsnapshot]
  rfl

/-- Something is found at an optimal solution, unless its slack columns keep it from being split. -/
theorem examine_answers (b : BranchAndBound α) {solution : Solution α}
    (hwf : solution.tableau.IsWellFormed)
    (hrunnable : Revision.IsRunnable ⟨solution.tableau, solution.initialRows⟩ integer.length)
    (hoptimal : solution.status = .optimal) (bound : Option α) (number depth : Nat) :
    b.VisitAnswers integer.length (examine integer bound number depth solution).outcome := by
  have hsnapshot : solution.snapshot =
      Snapshot.capture solution.tableau solution.initialRows := by
    rw [Solution.snapshot, Solution.isOptimal, if_pos (decide_eq_true hoptimal)]
  rcases answers_iff.1 hrunnable.capture_answers with
    ⟨s, hs⟩ | ⟨_, ⟨name, slack, rfl, -⟩, hrefused⟩
  · -- a solution that can be captured is ready
    obtain ⟨htableau, hrows, hcaptured⟩ := Snapshot.capture_eq_ok.1 hs
    have hready : Revision.IsReady ⟨solution.tableau, solution.initialRows⟩ integer.length := by
      refine ⟨⟨hrunnable.isValid, hrunnable.hasShape, ?_⟩, hwf.basis_subset,
        hrunnable.structural_eq⟩
      have hid := hcaptured.hasIdentity
      rwa [htableau, hrows] at hid
    obtain ⟨visit, hvisit, hhalves⟩ := exists_examine_of_isReady hready hoptimal bound number depth
    exact .inl ⟨visit, hvisit, hhalves⟩
  · by_cases hneeds : NeedsSplit integer bound solution
    · exact .inr ⟨.slackColumnChanged name slack, trivial,
        examine_of_snapshot_eq_refuse hwf hneeds (hsnapshot.trans hrefused) number depth⟩
    · obtain ⟨visit, hvisit, hleaf⟩ := exists_examine_of_not_needsSplit hwf hneeds number depth
      exact .inl ⟨visit, hvisit, visit.isReady_of_ne_split hleaf _⟩

/-- At a node that can be run something is found, and any halves are ready, unless the node is
refused for one of a few causes. -/
theorem visit_answers (b : BranchAndBound α) {node : Node α}
    (hnode : node.revision.IsRunnable integer.length) (bound : Option α) (number : Nat) :
    b.VisitAnswers integer.length (b.visit integer bound number node).outcome := by
  rw [visit, Recorded.outcome_andThen]
  rcases b.solver.run_cases node.revision.tableau node.revision.initialRows with
    ⟨solution, hrun⟩ | hlimit | ⟨cause, hcause, hready, hrun⟩
  · have hrun : (b.solver.resolve node.revision).outcome = .ok solution := hrun
    obtain ⟨hwf, hrunnable⟩ := hnode.run hrun
    rw [hrun, ok_bind]
    cases hstatus : solution.status with
    | optimal => exact b.examine_answers hwf hrunnable hstatus bound number node.depth
    | infeasible row name => exact .inl ⟨.infeasible, rfl, trivial⟩
    | unbounded column name => exact .inr ⟨.unbounded name, trivial, rfl⟩
  · have hlimit : (b.solver.resolve node.revision).outcome =
        refuse (.iterationLimit b.solver.maxIterations) := hlimit
    rw [hlimit]
    exact .inr ⟨.iterationLimit b.solver.maxIterations, rfl, rfl⟩
  · have hrun : (b.solver.resolve node.revision).outcome = refuse cause := congrArg _ hrun
    rw [hrun]
    -- the lengths agree and the names differ, so only a basic variable can be refused
    have hanswers := Solver.ready_answers_of_isValid hnode.isValid
    rw [hready] at hanswers
    obtain ⟨name, rfl⟩ := hanswers
    exact .inr ⟨.inconsistentBasis name, trivial, rfl⟩

/-- The halves of a node that can be run are ready. -/
theorem isReady_of_visit_eq_ok {b : BranchAndBound α} {node : Node α}
    (hnode : node.revision.IsRunnable integer.length) {bound : Option α} {number : Nat}
    {visit : Visit α} (h : (b.visit integer bound number node).outcome = .ok visit) :
    visit.IsReady integer.length := by
  rcases b.visit_answers hnode bound number with ⟨visit', hvisit, hready⟩ | ⟨_, -, hcause⟩
  · rw [h, Except.ok.injEq] at hvisit
    exact hvisit ▸ hready
  · rw [h] at hcause
    cases hcause

/-! ### The whole search -/

/-- All nodes of a search that are still to be visited can be run. -/
def AreRunnable (n : Nat) (s : Search α) : Prop := ∀ node ∈ s.stack, node.revision.IsRunnable n

variable {b : BranchAndBound α}

/-- A visit leaves nodes that can be run. -/
theorem Steps.areRunnable {s s' : Search α} (h : b.Steps integer s s')
    (hs : AreRunnable integer.length s) : AreRunnable integer.length s' := by
  obtain ⟨node, rest, visit, hstack, hvisit, rfl⟩ := h
  have hnode : node.revision.IsRunnable integer.length := hs node (hstack ▸ List.mem_cons_self)
  have hrest : ∀ other ∈ rest, other.revision.IsRunnable integer.length :=
    fun other hother => hs other (hstack ▸ List.mem_cons_of_mem _ hother)
  have hhalves := isReady_of_visit_eq_ok hnode hvisit
  cases visit with
  | infeasible => exact hrest
  | pruned => exact hrest
  | integral objective assignment tableau => exact hrest
  | split lower upper =>
    exact List.forall_mem_cons.2 ⟨hhalves.1.isRunnable,
      List.forall_mem_cons.2 ⟨hhalves.2.isRunnable, hrest⟩⟩

omit [Scalar α] [LawfulUnits α] in
theorem areRunnable_start (b : BranchAndBound α) {t : Tableau α} (ht : t.IsValid)
    (hlen : integer.length = t.structural) : AreRunnable integer.length (b.start t) := by
  intro node hnode
  rw [List.mem_singleton.1 hnode]
  exact ⟨ht, ht.hasShape, hlen.symm⟩

/-- Every state of a search from a valid tableau has nodes that can be run. -/
theorem areRunnable_of_reflTransGen {t : Tableau α} (ht : t.IsValid)
    (hlen : integer.length = t.structural) {s : Search α}
    (h : Relation.ReflTransGen (b.Steps integer) (b.start t) s) : AreRunnable integer.length s :=
  invariant_of_reflTransGen (fun _ _ hstep => hstep.areRunnable) h (b.areRunnable_start ht hlen)

/-- A search from any tableau, with requirements of any number, gives a solution or is refused. -/
theorem solve_answers (b : BranchAndBound α) (t : Tableau α) (integer : List Bool) :
    (b.solve t integer).outcome.Answers fun _ => True := by
  rcases answers_iff.1 t.validate_answers with ⟨⟨⟩, hvalid⟩ | ⟨cause, -, hrefused⟩
  · have ht := Tableau.validate_eq_ok.1 hvalid
    by_cases hlen : integer.length = t.structural
    · obtain ⟨s, hreaches, hends⟩ := b.solve_spec ht hlen
      generalize (b.solve t integer).outcome = outcome at hends
      cases hends with
      | found => exact answers_ok _
      | exhausted => trivial
      | limited => trivial
      | failed hstack hvisit =>
        have hnode := areRunnable_of_reflTransGen ht hlen hreaches _ (hstack ▸ List.mem_cons_self)
        rcases b.visit_answers hnode s.bound (s.visited + 1) with
          ⟨visit, hok, -⟩ | ⟨cause, -, hcause⟩
        · rw [hvisit] at hok
          cases hok
        · rw [hvisit] at hcause
          cases hcause
          trivial
    · rw [b.solve_of_length_ne ht hlen]
      trivial
  · rw [solve, Recorded.outcome_andThen, Recorded.outcome_quiet, hrefused]
    trivial

/-- Solving answers for every tableau, every list of requirements and all options: there is a
solution or a refusal, and no position that is used lies outside its list. What a run refuses for
the shape of its tableau it refuses before the first pivot; the row of a pivot is a position of its
ratios wherever it is used as one; and however a double is snapped, the numerators and denominators
on the way are words of 64 bits that are not below zero, so that no product, sum or change of sign
leaves the words. -/
theorem solve_total (s : Solver) (b : BranchAndBound Float) (t : Tableau Float)
    (integer : List Bool) :
    ((∃ solution, (s.solve t).outcome = .ok solution) ∨
      ∃ cause, (s.solve t).outcome = Outcome.refuse cause) ∧
    ((∃ solution, (b.solve t integer).outcome = .ok solution) ∨
      ∃ cause, (b.solve t integer).outcome = Outcome.refuse cause) ∧
    (∀ cause : Refusal, cause.IsMalformed → (s.solve t).outcome = Outcome.refuse cause →
      Solver.ready t = Outcome.refuse cause ∧ (s.solve t).events = []) ∧
    (∀ (r : Run Float) (p : Pivot Float) (costs : ReducedCosts Float),
      s.next r = .ok (.pivot p, costs) → p.rule ≠ .infeasibility → p.row < p.ratios.length) ∧
    ∀ (value : Float) (terms : Nat),
      (Snap.refine terms (Arithmetic.abs value) .seed).InWords ∧
      fitsWord (Snap.approximate value).1 = true ∧ fitsWord (Snap.approximate value).2 = true := by
  refine ⟨?_, ?_, ?_, ?_, ?_⟩
  · rcases s.run_cases t t.rows with hsolution | hlimit | ⟨cause, -, -, hrefused⟩
    · exact .inl hsolution
    · exact .inr ⟨_, hlimit⟩
    · exact .inr ⟨cause, congrArg Recorded.outcome hrefused⟩
  · rcases answers_iff.1 (b.solve_answers t integer) with hsolution | ⟨cause, -, hrefused⟩
    · exact .inl hsolution
    · exact .inr ⟨cause, hrefused⟩
  · exact fun cause hcause hrefused => s.ready_eq_refuse_of_run hcause hrefused
  · intro r p costs hnext hrule
    obtain ⟨ratio, hratio⟩ := Solver.exists_ratio_of_next hnext hrule
    exact (List.getElem?_eq_some_iff.1 hratio).1
  · exact fun value terms => ⟨Snap.inWords_refine value terms, Snap.fitsWord_approximate value⟩

/-- With an unknown basic variable the resource is refused before its first pivot. Otherwise the
first pivot has a ratio at its row, and whatever stands in the row, a number or none, there is an
answer. -/
theorem solve_total_oneResource :
    let t := Tableau.oneResource
    let s : Solver := {}
    let b : BranchAndBound Float := { incumbent := some Double.negativeInfinity }
    (s.solve { t with basis := ["x9"] }).outcome = Outcome.refuse (.inconsistentBasis "x9") ∧
      (s.solve { t with basis := ["x9"] }).events = [] ∧
      (∃ p costs, s.next (.start t) = .ok (.pivot p, costs) ∧ p.rule ≠ .infeasibility ∧
        p.row < p.ratios.length) ∧
      ∀ entry value : Float,
        (∃ solution, (b.solve { t with rows := [[entry, 1]], rhs := [value] } [true]).outcome =
          .ok solution) ∨
        ∃ cause, (b.solve { t with rows := [[entry, 1]], rhs := [value] } [true]).outcome =
          Outcome.refuse cause := by
  intro t s b
  have hrefused : (s.solve { t with basis := ["x9"] }).outcome =
      Outcome.refuse (.inconsistentBasis "x9") := by decide +kernel
  have hmove : (fun (move, _) => match move with
      | .pivot p => some p.rule
      | .halt _ => none) <$> s.next (.start t) = .ok (some .dantzig) := by decide +kernel
  have hnext : ∃ p costs, s.next (.start t) = .ok (.pivot p, costs) ∧ p.rule ≠ .infeasibility := by
    obtain ⟨⟨p | status, costs⟩, hnext, hrule⟩ := map_eq_ok.1 hmove
    · have hrule : p.rule = .dantzig := Option.some.inj hrule
      exact ⟨p, costs, hnext, by rw [hrule]; nofun⟩
    · cases hrule
  obtain ⟨p, costs, hnext, hrule⟩ := hnext
  refine ⟨hrefused, ?_, ⟨p, costs, hnext, hrule, ?_⟩, fun entry value => ?_⟩
  · exact ((solve_total s b { t with basis := ["x9"] } [true]).2.2.1
      (.inconsistentBasis "x9") trivial hrefused).2
  · exact (solve_total s b t [true]).2.2.2.1 _ p costs hnext hrule
  · exact (solve_total s b { t with rows := [[entry, 1]], rhs := [value] } [true]).2.1

end BranchAndBound

end LinProg
