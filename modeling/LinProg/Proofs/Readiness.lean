import LinProg.Proofs.Branching
import LinProg.Proofs.CanonicalRun
import LinProg.Proofs.Closure
import LinProg.Proofs.Exploration

/-!
# Searches end only as they are meant to

A node is ready if its tableau can be run and, when the run has found an optimum, captured and
revised. This asks for matching lengths, distinct names and unit slack columns, and for nothing of
the numbers. A run keeps a node ready, and so does the constraint that bounds a variable, however
deep the node is; so no operation of a search can be refused for what it has been given. Only the
limits, an unbounded relaxation and the lack of a solution are left to end a search without one.
-/

namespace LinProg

variable {α : Type} [Scalar α]

/-- A revision can be run and captured, and has the given number of structural variables. -/
structure Revision.IsReady (r : Revision α) (n : Nat) : Prop extends r.IsCapturable where
  basis_subset : ∀ name ∈ r.tableau.basis, name ∈ r.tableau.names
  structural_eq : r.tableau.structural = n

/-- A revision has the shape in which tableaux are run, and the given number of structural
variables. Its basic variables and its slack columns may be of any kind. -/
structure Revision.IsRunnable (r : Revision α) (n : Nat) : Prop where
  isValid : r.tableau.IsValid
  hasShape : r.initialRows.HasShape r.tableau.height r.tableau.width
  structural_eq : r.tableau.structural = n

/-- The halves of a node that has been split are ready. -/
def Visit.IsReady (n : Nat) : Visit α → Prop
  | .split lower upper => lower.IsReady n ∧ upper.IsReady n
  | _ => True

theorem Visit.isReady_of_ne_split {visit : Visit α} (h : ∀ lower upper, visit ≠ .split lower upper)
    (n : Nat) : visit.IsReady n := by
  cases visit with
  | split lower upper => exact absurd rfl (h lower upper)
  | _ => trivial

/-- All nodes of a search that are still to be visited are ready. -/
def Search.IsReady (s : Search α) (n : Nat) : Prop := ∀ node ∈ s.stack, node.revision.IsReady n

namespace Revision

variable {r : Revision α} {n : Nat}

theorem IsReady.isWellFormed (hr : r.IsReady n) : r.tableau.IsWellFormed :=
  ⟨hr.isValid, hr.basis_subset⟩

/-- What a request makes of a tableau is ready if its basic variables were among its variables. -/
theorem Extends.isReady {t : Tableau α} {request : Request α} (h : r.Extends t request)
    (ht : ∀ name ∈ t.basis, name ∈ t.names) : r.IsReady r.tableau.structural where
  toIsCapturable := h.toIsCapturable
  basis_subset := by
    rw [h.basis_eq, h.names_eq]
    intro name hname
    rcases List.mem_append.1 hname with hold | hnew
    · exact List.mem_append_left _ ((Snapshot.sublist_spliceAt _ _ _).subset (ht name hold))
    · exact List.mem_append_right _ hnew
  structural_eq := rfl

/-- A run gives a solution only from a well-formed tableau. It exchanges basic variables and keeps
everything else that lets a revision be run. -/
theorem IsRunnable.run (hr : r.IsRunnable n) {s : Solver} {solution : Solution α}
    (h : (s.resolve r).outcome = .ok solution) :
    solution.tableau.IsWellFormed ∧
      Revision.IsRunnable ⟨solution.tableau, solution.initialRows⟩ n := by
  obtain ⟨hwf, last, hend⟩ := Solver.run_eq_ok h
  obtain ⟨hnames, -, hheight⟩ := Solver.names_costs_height_of_reflTransGen hend.reaches hwf
  have hlast : last.tableau.IsWellFormed := hend.isWellFormed hwf
  have hwidth : last.tableau.width = r.tableau.width := congrArg List.length hnames
  have hheight : last.tableau.height = r.tableau.height := hheight
  have hstructural : last.tableau.structural = r.tableau.structural := by
    rw [Tableau.structural, hwidth, hheight, Tableau.structural]
  rw [hend.tableau_eq, hend.initialRows_eq]
  refine ⟨hlast, hlast.toIsValid, ?_, hstructural.trans hr.structural_eq⟩
  rw [hheight, hwidth]
  exact hr.hasShape

theorem IsReady.isRunnable (hr : r.IsReady n) : r.IsRunnable n :=
  ⟨hr.isValid, hr.hasShape, hr.structural_eq⟩

/-- A run keeps a revision ready: the coefficients before any pivot stay what they are. -/
theorem IsReady.run (hr : r.IsReady n) {s : Solver} {solution : Solution α}
    (h : (s.resolve r).outcome = .ok solution) :
    Revision.IsReady ⟨solution.tableau, solution.initialRows⟩ n := by
  obtain ⟨-, last, hend⟩ := Solver.run_eq_ok h
  obtain ⟨hwf, hrunnable⟩ := hr.isRunnable.run h
  refine ⟨⟨hwf.toIsValid, hrunnable.hasShape, ?_⟩, hwf.basis_subset, hrunnable.structural_eq⟩
  have hid := hr.hasIdentity
  rw [hr.structural_eq, ← hend.initialRows_eq] at hid
  rwa [hrunnable.structural_eq]

/-- In exact arithmetic a revision that narrows a program is ready. -/
theorem Narrows.isReady {r : Revision ℚ} {t : Tableau ℚ} (h : r.Narrows t) :
    r.IsReady t.structural := by
  obtain ⟨raw, hraw, hinitial⟩ := h.exists_underlies
  refine ⟨⟨hraw.isCanonical.toIsValid, ?_, ?_⟩, hraw.isCanonical.basis_subset, h.structural_eq⟩
  · rw [hinitial, hraw.sameProgram.height_eq, hraw.sameProgram.width_eq]
    exact hraw.isValid.hasShape
  · rw [hinitial, hraw.sameProgram.structural_eq]
    exact hraw.hasIdentity

end Revision

namespace BranchAndBound

variable {integer : List Bool}

/-! ### One visit -/

section

variable {solution : Solution α}
  (hready : Revision.IsReady ⟨solution.tableau, solution.initialRows⟩ integer.length)
  (hoptimal : solution.status = .optimal)

include hready hoptimal

/-- An optimal solution can be split at every structural variable, and both halves are ready. -/
theorem exists_split_of_isReady [LawfulUnits α] {column : Nat} (hcolumn : column < integer.length)
    (value : α) :
    ∃ lower upper, (split solution column value).outcome = .ok (lower, upper) ∧
      lower.IsReady integer.length ∧ upper.IsReady integer.length := by
  obtain ⟨s, hs⟩ := hready.exists_capture_eq_ok
  obtain ⟨htableau, hrows, hcaptured⟩ := Snapshot.capture_eq_ok.1 hs
  have htableau : s.tableau = solution.tableau := htableau
  have hsnapshot := Solution.snapshot_eq_ok.2 ⟨hoptimal, htableau, hrows, hcaptured⟩
  have hwf : s.tableau.IsWellFormed := htableau ▸ hready.isWellFormed
  have hstructural : s.tableau.structural = integer.length := htableau ▸ hready.structural_eq
  have hhalf : ∀ sign bound, s.apply (boundRequest solution.tableau.width column sign bound) =
      .ok (boundRevision s column sign bound) := by
    intro sign bound
    rw [← htableau]
    exact apply_boundRequest hwf (hstructural ▸ hcolumn) sign bound
  have hhalfReady : ∀ sign bound, (boundRevision s column sign bound).IsReady integer.length := by
    intro sign bound
    have hextends := Snapshot.extends_apply hcaptured (hhalf sign bound)
    have hready := hextends.isReady hwf.basis_subset
    rwa [hextends.structural_eq, hstructural] at hready
  exact ⟨_, _, split_eq_ok.2 ⟨s, hsnapshot, hhalf _ _, hhalf _ _⟩, hhalfReady _ _, hhalfReady _ _⟩

/-- Something is found at every optimal solution. -/
theorem exists_examine_of_isReady [LawfulUnits α] (bound : Option α) (number depth : Nat) :
    ∃ visit, (examine integer bound number depth solution).outcome = .ok visit ∧
      visit.IsReady integer.length := by
  have hwf : solution.tableau.IsWellFormed := hready.isWellFormed
  by_cases hneeds : NeedsSplit integer bound solution
  · obtain ⟨hpruned, column, value, hfound⟩ := hneeds
    obtain ⟨-, -, -, -, hrequired, -⟩ := fractional?_eq_some hwf hfound
    have hcolumn : column < integer.length := (List.getElem?_eq_some_iff.1 hrequired).1
    obtain ⟨lower, upper, hsplit, hhalves⟩ := exists_split_of_isReady hready hoptimal hcolumn value
    refine ⟨.split lower upper, ?_, hhalves⟩
    rw [examine_of_fractional? hwf hpruned hfound, hsplit]
    rfl
  · obtain ⟨visit, hvisit, hleaf⟩ := exists_examine_of_not_needsSplit hwf hneeds number depth
    exact ⟨visit, hvisit, visit.isReady_of_ne_split hleaf _⟩

end

/-- How the visit of a node may fail: its run is cut off, or its relaxation is unbounded. -/
inductive FailsAt (b : BranchAndBound α) (node : Node α) : Outcome (Visit α) → Prop where
  | limited (h : (b.solver.resolve node.revision).outcome =
      .refuse (.iterationLimit b.solver.maxIterations)) :
      FailsAt b node (.refuse (.iterationLimit b.solver.maxIterations))
  | unbounded (name : String) : FailsAt b node (.refuse (.unbounded name))

variable [LawfulUnits α] {b : BranchAndBound α}

/-- At a ready node something is found, and any halves are ready, unless its run is cut off or its
relaxation is unbounded. -/
theorem visit_of_isReady (b : BranchAndBound α) {node : Node α}
    (hnode : node.revision.IsReady integer.length) (bound : Option α) (number : Nat) :
    (∃ visit, (b.visit integer bound number node).outcome = .ok visit ∧
        visit.IsReady integer.length) ∨
      b.FailsAt node (b.visit integer bound number node).outcome := by
  rw [visit, Recorded.outcome_andThen]
  rcases b.solver.run_outcome hnode.isWellFormed node.revision.initialRows with
    ⟨solution, hrun⟩ | hlimit
  · have hrun : (b.solver.resolve node.revision).outcome = .ok solution := hrun
    rw [hrun, Outcome.ok_bind]
    cases hstatus : solution.status with
    | optimal =>
      exact .inl (exists_examine_of_isReady (hnode.run hrun) hstatus bound number node.depth)
    | infeasible row name => exact .inl ⟨.infeasible, rfl, trivial⟩
    | unbounded column name => exact .inr (.unbounded name)
  · have hlimit : (b.solver.resolve node.revision).outcome =
        Outcome.refuse (.iterationLimit b.solver.maxIterations) := hlimit
    rw [hlimit]
    exact .inr (.limited hlimit)

/-! ### The whole search -/

/-- A visit leaves the nodes that are still to be visited ready. -/
theorem Steps.isReady {s s' : Search α} (h : b.Steps integer s s') (hs : s.IsReady integer.length) :
    s'.IsReady integer.length := by
  obtain ⟨node, rest, visit, hstack, hvisit, rfl⟩ := h
  have hnode : node.revision.IsReady integer.length := hs node (hstack ▸ List.mem_cons_self)
  have hrest : ∀ other ∈ rest, other.revision.IsReady integer.length :=
    fun other hother => hs other (hstack ▸ List.mem_cons_of_mem _ hother)
  rcases b.visit_of_isReady hnode s.bound (s.visited + 1) with ⟨visit', hvisit', hready⟩ | hfails
  · rw [hvisit, Except.ok.injEq] at hvisit'
    subst hvisit'
    cases visit with
    | infeasible => exact hrest
    | pruned => exact hrest
    | integral objective assignment tableau => exact hrest
    | split lower upper =>
      exact List.forall_mem_cons.2 ⟨hready.1, List.forall_mem_cons.2 ⟨hready.2, hrest⟩⟩
  · rw [hvisit] at hfails
    cases hfails

omit [LawfulUnits α] in
/-- The search from a well-formed tableau with unit slack columns begins with a ready node. -/
theorem isReady_start (b : BranchAndBound α) {t : Tableau α} (ht : t.IsWellFormed)
    (hid : t.rows.HasIdentityAt t.structural) (hlen : integer.length = t.structural) :
    (b.start t).IsReady integer.length := by
  intro node hnode
  rw [List.mem_singleton.1 hnode]
  exact ⟨⟨ht.toIsValid, ht.hasShape, hid⟩, ht.basis_subset, hlen.symm⟩

/-- Every state of a search from there has ready nodes only. -/
theorem isReady_of_reflTransGen {t : Tableau α} (ht : t.IsWellFormed)
    (hid : t.rows.HasIdentityAt t.structural) (hlen : integer.length = t.structural) {s : Search α}
    (h : Relation.ReflTransGen (b.Steps integer) (b.start t) s) : s.IsReady integer.length :=
  invariant_of_reflTransGen (fun _ _ hstep => hstep.isReady) h (b.isReady_start ht hid hlen)

/-- A search from a valid tableau whose basic variables are among its variables and whose slack
columns form the identity, up to the signs of zeros, gives a solution or ends at a limit, at an
unbounded relaxation or without a solution; and at every node that it comes to, however deep,
something is found unless the run of the node is cut off or its relaxation is unbounded. Nothing is
assumed of the numbers. -/
theorem solve_refusals (b : BranchAndBound Float) {t : Tableau Float} {integer : List Bool}
    (ht : t.validate = .ok ()) (hbasis : ∀ name ∈ t.basis, name ∈ t.names)
    (hid : t.rows.HasIdentityAt t.structural) (hlen : integer.length = t.structural) :
    ((∃ solution, (b.solve t integer).outcome = .ok solution) ∨
      (b.solve t integer).outcome = Outcome.refuse (.iterationLimit b.maxNodes) ∨
      (b.solve t integer).outcome = Outcome.refuse (.iterationLimit b.solver.maxIterations) ∨
      (∃ name, (b.solve t integer).outcome = Outcome.refuse (.unbounded name)) ∨
      (b.solve t integer).outcome = Outcome.refuse .noIntegerSolution) ∧
    ∀ s node rest, Relation.ReflTransGen (b.Steps integer) (b.start t) s → s.stack = node :: rest →
      (∃ visit, (b.visit integer s.bound (s.visited + 1) node).outcome = .ok visit) ∨
      (b.visit integer s.bound (s.visited + 1) node).outcome =
        Outcome.refuse (.iterationLimit b.solver.maxIterations) ∨
      ∃ name, (b.visit integer s.bound (s.visited + 1) node).outcome =
        Outcome.refuse (.unbounded name) := by
  have hwf : t.IsWellFormed := ⟨Tableau.validate_eq_ok.1 ht, hbasis⟩
  have hvisit : ∀ s node rest, Relation.ReflTransGen (b.Steps integer) (b.start t) s →
      s.stack = node :: rest →
      (∃ visit, (b.visit integer s.bound (s.visited + 1) node).outcome = .ok visit) ∨
      b.FailsAt node (b.visit integer s.bound (s.visited + 1) node).outcome := by
    intro s node rest hreaches hstack
    have hready := isReady_of_reflTransGen hwf hid hlen hreaches node (hstack ▸ List.mem_cons_self)
    rcases b.visit_of_isReady hready s.bound (s.visited + 1) with ⟨visit, hok, -⟩ | hfails
    · exact .inl ⟨visit, hok⟩
    · exact .inr hfails
  constructor
  · obtain ⟨s, hreaches, hends⟩ := b.solve_spec hwf.toIsValid hlen
    generalize (b.solve t integer).outcome = outcome at hends
    cases hends with
    | found => exact .inl ⟨_, rfl⟩
    | exhausted => exact .inr (.inr (.inr (.inr rfl)))
    | limited => exact .inr (.inl rfl)
    | failed hstack hfailure =>
      rcases hvisit s _ _ hreaches hstack with ⟨visit, hok⟩ | hfails
      · rw [hfailure] at hok
        cases hok
      · rw [hfailure] at hfails
        cases hfails with
        | limited => exact .inr (.inr (.inl rfl))
        | unbounded name => exact .inr (.inr (.inr (.inl ⟨name, rfl⟩)))
  · intro s node rest hreaches hstack
    rcases hvisit s node rest hreaches hstack with hok | hfails
    · exact .inl hok
    · generalize (b.visit integer s.bound (s.visited + 1) node).outcome = outcome at hfails
      cases hfails with
      | limited => exact .inr (.inl rfl)
      | unbounded name => exact .inr (.inr ⟨name, rfl⟩)

/-- One unit of the product is the most that can be made in whole units. Whatever stands on the
right-hand side, a number or none, no other end is possible. -/
theorem solve_refusals_oneResource :
    let t := Tableau.oneResource
    let b : BranchAndBound Float :=
      { incumbent := some Double.negativeInfinity, maxNodes := 10 }
    t.validate = .ok () ∧ (∀ name ∈ t.basis, name ∈ t.names) ∧
      t.rows.HasIdentityAt t.structural ∧
      (fun solution => (solution.objective, solution.nodes)) <$> (b.solve t [true]).outcome =
        .ok (1, 3) ∧
      ∀ rhs : Float,
        (∃ solution, (b.solve { t with rhs := [rhs] } [true]).outcome = .ok solution) ∨
        (b.solve { t with rhs := [rhs] } [true]).outcome = Outcome.refuse (.iterationLimit 10) ∨
        (b.solve { t with rhs := [rhs] } [true]).outcome =
          Outcome.refuse (.iterationLimit b.solver.maxIterations) ∨
        (∃ name, (b.solve { t with rhs := [rhs] } [true]).outcome =
          Outcome.refuse (.unbounded name)) ∨
        (b.solve { t with rhs := [rhs] } [true]).outcome = Outcome.refuse .noIntegerSolution := by
  intro t b
  have hvalid : t.validate = .ok () := by decide +kernel
  have hbasis : ∀ name ∈ t.basis, name ∈ t.names := by decide +kernel
  have hid : t.rows.HasIdentityAt t.structural := by decide +kernel
  refine ⟨hvalid, hbasis, hid, by decide +kernel, fun rhs => ?_⟩
  exact (solve_refusals b (t := { t with rhs := [rhs] }) hvalid hbasis hid rfl).1

end BranchAndBound

end LinProg
