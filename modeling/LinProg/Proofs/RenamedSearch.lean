import Mathlib.Logic.Equiv.Basic
import LinProg.Proofs.Cutoff
import LinProg.Proofs.RenamedRun

/-!
# Searches with renamed variables

A search gives names of its own to the slack variables that it adds, and looks for them among the
names that are not used. A renamed search therefore may choose others. At every node the two lists
of variables still correspond: the renaming is continued from one node to the next so that it takes
each new name to the one that the renamed search has chosen. Runs do not notice the difference, so
both searches visit the same nodes, find the same values there and end alike; only where a
relaxation is unbounded in a new slack variable, its name shows which of the searches has chosen it.
-/

namespace LinProg

/-! ### Fresh names -/

/-- A renaming continues another one beyond the given names: it takes the name that is fresh for
them to the name that is fresh for the renamed ones. -/
structure Continues (ρ' ρ : String → String) (names : List String) : Prop where
  injective : Function.Injective ρ'
  map_eq : ∀ name ∈ names, ρ' name = ρ name
  map_freshName : ρ' (freshName names) = freshName (names.map ρ)

/-- Every renaming can be continued: where the fresh name of the renamed list is taken already, the
two names are swapped. -/
theorem exists_continues {ρ : String → String} (hρ : Function.Injective ρ) (names : List String) :
    ∃ ρ', Continues ρ' ρ names := by
  refine ⟨Equiv.swap (ρ (freshName names)) (freshName (names.map ρ)) ∘ ρ,
    (Equiv.injective _).comp hρ, fun name hname => ?_, Equiv.swap_apply_left _ _⟩
  refine Equiv.swap_apply_of_ne_of_ne (fun h => ?_) fun h => ?_
  · exact freshName_not_mem names (hρ h ▸ hname)
  · exact freshName_not_mem (names.map ρ) (h ▸ List.mem_map_of_mem hname)

/-- A renaming that is continued takes the next new name to its counterpart as well. -/
theorem Continues.map_freshNames {r ρ ρ' : String → String} {names : List String} {k : Nat}
    (hρ' : Continues ρ' ρ (names ++ freshNames names k)) (hold : ∀ name ∈ names, ρ name = r name)
    (hfresh : (freshNames names k).map ρ = freshNames (names.map r) k) :
    (freshNames names (k + 1)).map ρ' = freshNames (names.map r) (k + 1) := by
  have hkeep : (freshNames names k).map ρ' = (freshNames names k).map ρ :=
    List.map_congr_left fun name hname => hρ'.map_eq name (List.mem_append_right _ hname)
  have hused : (names ++ freshNames names k).map ρ = names.map r ++ freshNames (names.map r) k := by
    rw [List.map_append, List.map_congr_left hold, hfresh]
  rw [freshNames_succ, freshNames_succ, List.map_append, List.map_singleton,
    hρ'.map_freshName, hused, hkeep, hfresh]

/-! ### Snapshots and revisions -/

section

variable {α : Type} (ρ : String → String)

/-- The snapshot with its variables renamed. -/
def Snapshot.rename (s : Snapshot α) : Snapshot α := { s with tableau := s.tableau.rename ρ }

/-- The revision with its variables renamed. -/
def Revision.rename (r : Revision α) : Revision α := { r with tableau := r.tableau.rename ρ }

/-- The node with its variables renamed. -/
def Node.rename (node : Node α) : Node α := { node with revision := node.revision.rename ρ }

/-- The values with their names replaced, again in the order of the names. -/
def renameKeys (named : List (String × α)) : List (String × α) :=
  (named.map (Prod.map ρ id)).mergeSort fun first second => decide (first.1 ≤ second.1)

/-- What is found at a node, renamed: the halves by a renaming of their own. -/
def Visit.rename (ρ' : String → String) : Visit α → Visit α
  | .infeasible => .infeasible
  | .pruned => .pruned
  | .integral objective assignment tableau =>
    .integral objective (renameKeys ρ assignment) (tableau.rename ρ)
  | .split lower upper => .split (lower.rename ρ') (upper.rename ρ')

end

section

variable {α : Type} [Scalar α] {ρ ρ' : String → String}

namespace Snapshot

theorem checkSlackColumns_rename (t : Tableau α) (initialRows : Rows α) :
    checkSlackColumns (t.rename ρ) initialRows =
      (checkSlackColumns t initialRows).rename ρ id := by
  unfold checkSlackColumns
  rw [Tableau.rename_names, List.zipIdx_map, Tableau.structural_rename]
  refine Outcome.forM_map fun (name, j) _ => ?_
  dsimp only [Prod.map, id_eq]
  by_cases hj : t.structural ≤ j
  · rw [if_pos hj, if_pos hj]
    refine Outcome.rename_bind (Rows.isNameless_column _ _ ρ) fun entries => ?_
    dsimp only [id_eq]
    by_cases hunit : (!Rows.isUnit (j - t.structural) entries) = true
    · rw [if_pos hunit, if_pos hunit]
      rfl
    · rw [if_neg hunit, if_neg hunit]
      rfl
  · rw [if_neg hj, if_neg hj]
    rfl

theorem capture_rename (hρ : Function.Injective ρ) (t : Tableau α) (initialRows : Rows α) :
    capture (t.rename ρ) initialRows = (capture t initialRows).rename ρ (Snapshot.rename ρ) := by
  unfold capture
  rw [Tableau.height_rename, Tableau.width_rename]
  have hinverse : t.rows.basisInverse.IsNameless := by
    unfold Rows.basisInverse
    split
    · exact fun _ => rfl
    · exact Outcome.isNameless_mapM fun _ _ =>
        (Outcome.isNameless_within _).bind fun _ => Outcome.isNameless_ok _
  exact Outcome.rename_bind (t.validate_rename hρ) fun _ =>
    Outcome.rename_bind (Outcome.isNameless_check _ _ _ ρ) fun _ =>
    Outcome.rename_bind (Rows.isNameless_checkWidths _ _ _ ρ) fun _ =>
    Outcome.rename_bind (checkSlackColumns_rename t initialRows) fun _ =>
    Outcome.rename_bind (hinverse ρ) fun _ => rfl

variable (s : Snapshot α)

theorem checkNewRows_rename (rows : Rows α) :
    (s.rename ρ).checkNewRows rows = (s.checkNewRows rows).rename ρ id := by
  have hwidth : (s.rename ρ).tableau.width = s.tableau.width := s.tableau.width_rename
  have hstructural : (s.rename ρ).tableau.structural = s.tableau.structural :=
    s.tableau.structural_rename
  unfold checkNewRows
  rw [hwidth, hstructural]
  refine Outcome.isNameless_forM (fun (row, i) _ => ?_) ρ
  refine (Outcome.isNameless_check _ _ _).bind fun _ => ?_
  dsimp only
  split
  · exact fun _ => rfl
  · exact Outcome.isNameless_ok ()

/-- New constraints are added to the renamed tableau as to the tableau, if the renaming of the
result gives the new names their counterparts. -/
theorem addConstraints_rename (hρ : Function.Injective ρ) (rows : Rows α) (rhs : List α)
    (costs : Option (List α))
    (hsame : ∀ name ∈ s.tableau.names ++ s.tableau.basis, ρ' name = ρ name)
    (hfresh : freshNames (s.tableau.names.map ρ) rows.length =
      (freshNames s.tableau.names rows.length).map ρ') :
    (s.rename ρ).addConstraints rows rhs costs =
      (s.addConstraints rows rhs costs).rename ρ (Revision.rename ρ') := by
  have hnames : (s.rename ρ).tableau.names = s.tableau.names.map ρ' :=
    List.map_congr_left fun name hname => (hsame name (List.mem_append_left _ hname)).symm
  have hbasis : (s.rename ρ).tableau.basis = s.tableau.basis.map ρ' :=
    List.map_congr_left fun name hname => (hsame name (List.mem_append_right _ hname)).symm
  have hnew : freshNames (s.rename ρ).tableau.names rows.length =
      (freshNames s.tableau.names rows.length).map ρ' := hfresh
  unfold addConstraints
  dsimp only
  refine Outcome.rename_bind (Outcome.isNameless_check _ _ _ ρ) fun _ => ?_
  rcases costs with _ | costs
  on_goal 2 => refine Outcome.rename_bind (Outcome.isNameless_check _ _ _ ρ) fun _ => ?_
  all_goals
    refine Outcome.rename_bind (s.checkNewRows_rename rows) fun _ =>
      Outcome.rename_bind (s.tableau.basicColumns_rename hρ) fun columns =>
      Outcome.rename_bind (Outcome.isNameless_within _ ρ) fun _ => ?_
    rw [hnew, hnames, hbasis]
    simp only [Outcome.pure_eq, Outcome.rename, Revision.rename, Tableau.rename, List.map_append]
    rfl

end Snapshot

theorem Solution.snapshot_rename (hρ : Function.Injective ρ) (solution : Solution α) :
    (solution.rename ρ).snapshot = solution.snapshot.rename ρ (Snapshot.rename ρ) := by
  unfold snapshot
  rw [isOptimal_rename]
  by_cases hoptimal : solution.isOptimal = true
  · rw [if_pos hoptimal, if_pos hoptimal]
    exact Snapshot.capture_rename hρ solution.tableau solution.initialRows
  · rw [if_neg hoptimal, if_neg hoptimal]
    rfl

/-! ### One visit -/

namespace BranchAndBound

variable {integer : List Bool}

theorem fractional?_rename (hρ : Function.Injective ρ) (t : Tableau α) :
    fractional? integer (t.rename ρ) = (fractional? integer t).rename ρ id :=
  Outcome.rename_bind (t.basicColumns_rename hρ) fun _ => rfl

omit [Scalar α] in
/-- Values of different names may be sorted before their names are replaced. -/
theorem renameKeys_mergeSort (hρ : Function.Injective ρ) {named : List (String × α)}
    (hnamed : (named.map Prod.fst).Nodup) :
    renameKeys ρ (named.mergeSort fun first second => decide (first.1 ≤ second.1)) =
      (named.map (Prod.map ρ id)).mergeSort fun first second => decide (first.1 ≤ second.1) := by
  have hsorted : ∀ l : List (String × α),
      (l.mergeSort fun first second => decide (first.1 ≤ second.1)).Pairwise
        fun first second => decide (first.1 ≤ second.1) = true := by
    refine List.pairwise_mergeSort (fun a b c hab hbc => ?_) fun a b => ?_
    · exact decide_eq_true (String.le_trans (of_decide_eq_true hab) (of_decide_eq_true hbc))
    · simpa using String.le_total a.1 b.1
  have hrenamed : ((named.map (Prod.map ρ id)).map Prod.fst).Nodup := by
    rw [List.map_map, show Prod.fst ∘ Prod.map ρ id = ρ ∘ (Prod.fst : String × α → String) from rfl,
      ← List.map_map]
    exact hnamed.map hρ
  have hperm : (renameKeys ρ (named.mergeSort fun first second => decide (first.1 ≤ second.1))).Perm
      (named.map (Prod.map ρ id)) :=
    (List.mergeSort_perm _ _).trans ((List.mergeSort_perm _ _).map _)
  refine List.Perm.eq_of_pairwise (fun a b ha hb hab hba => ?_) (hsorted _) (hsorted _)
    (hperm.trans (List.mergeSort_perm _ _).symm)
  exact List.inj_on_of_nodup_map hrenamed (hperm.mem_iff.1 ha) (List.mem_mergeSort.1 hb)
    (String.le_antisymm (of_decide_eq_true hab) (of_decide_eq_true hba))

/-- The values of a renamed tableau are the values of the tableau, in the order of the new names. -/
theorem assignment_rename (hρ : Function.Injective ρ) {t : Tableau α} (ht : t.IsValid) (n : Nat) :
    assignment n (t.rename ρ) = (assignment n t).rename ρ (renameKeys ρ) := by
  unfold assignment
  refine Outcome.rename_bind_of_ok (t.values_rename hρ) fun values hvalues => ?_
  rw [Tableau.values_eq_ok ht, Except.ok.injEq] at hvalues
  have hkeys : (((values.take n).map fun p => (p.1, Scalar.correct p.2)).map Prod.fst).Nodup := by
    have hfst : values.map Prod.fst = t.names := by
      rw [← hvalues, List.map_map]
      exact List.map_id _
    rw [List.map_map, show (Prod.fst ∘ fun (p : String × α) => (p.1, Scalar.correct p.2)) =
      Prod.fst from rfl, List.map_take, hfst]
    exact ht.nodup_names.sublist (List.take_sublist _ _)
  simp only [Outcome.pure_eq, Outcome.rename]
  rw [renameKeys_mergeSort hρ hkeys, ← List.map_take, List.map_map, List.map_map]
  rfl

/-- A renamed relaxation is split at the same value, and the halves are renamed by a renaming that
also takes the new names to each other. -/
theorem split_rename (hρ : Function.Injective ρ) {solution : Solution α}
    (hwf : solution.tableau.IsWellFormed) (hρ' : Continues ρ' ρ solution.tableau.names)
    (column : Nat) (value : α) : (split (solution.rename ρ) column value).outcome =
      (split solution column value).outcome.rename ρ
        (Prod.map (Revision.rename ρ') (Revision.rename ρ')) := by
  have hwidth : (solution.rename ρ).tableau.width = solution.tableau.width :=
    solution.tableau.width_rename
  unfold split
  rw [hwidth]
  simp only [Recorded.outcome_andThen, Recorded.outcome_quiet, Snapshot.revise,
    Recorded.outcome_andEvent]
  refine Outcome.rename_bind_of_ok (solution.snapshot_rename hρ) fun snapshot hsnapshot => ?_
  obtain ⟨-, htableau, -⟩ := Solution.snapshot_eq_ok.1 hsnapshot
  have hsame : ∀ name ∈ snapshot.tableau.names ++ snapshot.tableau.basis, ρ' name = ρ name := by
    rw [htableau]
    intro name hname
    rcases List.mem_append.1 hname with hname | hname
    · exact hρ'.map_eq name hname
    · exact hρ'.map_eq name (hwf.basis_subset name hname)
  have hhalf : ∀ sign bound,
      (snapshot.rename ρ).apply (boundRequest solution.tableau.width column sign bound) =
        (snapshot.apply (boundRequest solution.tableau.width column sign bound)).rename ρ
          (Revision.rename ρ') := by
    intro sign bound
    refine snapshot.addConstraints_rename hρ _ _ none hsame ?_
    rw [htableau]
    exact congrArg (fun name => [name]) hρ'.map_freshName.symm
  exact Outcome.rename_bind (hhalf _ _) fun upper =>
    Outcome.rename_bind (hhalf _ _) fun lower => rfl

theorem examine_rename (hρ : Function.Injective ρ) {solution : Solution α}
    (hwf : solution.tableau.IsWellFormed) (hρ' : Continues ρ' ρ solution.tableau.names)
    (bound : Option α) (number depth : Nat) :
    (examine integer bound number depth (solution.rename ρ)).outcome =
      (examine integer bound number depth solution).outcome.rename ρ (Visit.rename ρ ρ') := by
  have hobjective : (solution.rename ρ).objective = solution.objective := rfl
  unfold examine
  dsimp only
  rw [hobjective]
  by_cases hpruned : isPruned solution.objective bound = true
  · rw [if_pos hpruned, if_pos hpruned]
    rfl
  rw [if_neg hpruned, if_neg hpruned, Recorded.outcome_andThen, Recorded.outcome_andThen]
  refine Outcome.rename_bind (fractional?_rename hρ solution.tableau) fun found => ?_
  cases found with
  | none =>
    exact Outcome.rename_bind (assignment_rename hρ hwf.toIsValid _) fun named => rfl
  | some p =>
    obtain ⟨column, value⟩ := p
    have hname : (solution.rename ρ).tableau.names[column]? =
        solution.tableau.names[column]?.map ρ :=
      List.getElem?_map
    dsimp only [id_eq]
    simp only [Recorded.outcome_andThen, Recorded.outcome_quiet, Outcome.ok_bind]
    rw [hname]
    exact Outcome.rename_bind (Outcome.inRange_map _ ρ) fun _ =>
      Outcome.rename_bind (split_rename hρ hwf hρ' column value) fun _ => rfl

/-- A renamed node is visited with the same result, renamed. -/
theorem visit_rename (b : BranchAndBound α) (hρ : Function.Injective ρ) {node : Node α}
    (hρ' : Continues ρ' ρ node.revision.tableau.names) (bound : Option α) (number : Nat) :
    (b.visit integer bound number (node.rename ρ)).outcome =
      (b.visit integer bound number node).outcome.rename ρ (Visit.rename ρ ρ') := by
  have hrun : (b.solver.resolve (node.rename ρ).revision).outcome =
      (b.solver.resolve node.revision).outcome.rename ρ (Solution.rename ρ) :=
    congrArg Recorded.outcome
      (b.solver.run_rename hρ node.revision.tableau node.revision.initialRows)
  unfold visit
  rw [Recorded.outcome_andThen, Recorded.outcome_andThen]
  refine Outcome.rename_bind_of_ok hrun fun solution hsolution => ?_
  obtain ⟨hwf, hnames, -⟩ := Solver.names_of_run hsolution
  have hstatus : (solution.rename ρ).status = solution.status.rename ρ := rfl
  rw [hstatus]
  cases solution.status with
  | optimal => exact examine_rename hρ hwf (hnames ▸ hρ') bound number node.depth
  | infeasible row name => rfl
  | unbounded column name => rfl

end BranchAndBound

end

/-! ### Corresponding nodes -/

section

variable {α : Type} [Scalar α] {r ρ ρ' : String → String} {t : Tableau α} {n : Nat}

/-- A node of the search from a tableau, and the renaming that takes it to its counterpart in the
search from the renamed tableau. Beside the variables of the tableau there are a number of new slack
variables; each goes to the one that the renamed search has added in its place. -/
structure Node.IsRenamed (r : String → String) (t : Tableau α) (n : Nat) (ρ : String → String)
    (node : Node α) : Prop where
  injective : Function.Injective ρ
  map_eq : ∀ name ∈ t.names, ρ name = r name
  names_eq : ∃ k, node.revision.tableau.names = t.names ++ freshNames t.names k ∧
    (freshNames t.names k).map ρ = freshNames (t.names.map r) k
  isRunnable : node.revision.IsRunnable n
  isReady_or_eq : node.revision.IsReady n ∨ ρ = r

/-- Two solutions that differ only in the names of their variables. -/
structure IntegerSolution.Mirrors (r : String → String) (t : Tableau α) (x y : IntegerSolution α) :
    Prop where
  objective_eq : y.objective = x.objective
  assignment_eq : y.assignment = renameKeys r x.assignment
  nodes_eq : y.nodes = x.nodes
  tableau_eq : ∃ ρ, Function.Injective ρ ∧ (∀ name ∈ t.names, ρ name = r name) ∧
    y.tableau = x.tableau.rename ρ

/-- Two searches whose nodes correspond and that have found the same values. -/
structure Search.Mirrors (r : String → String) (t : Tableau α) (n : Nat) (s s' : Search α) :
    Prop where
  stack : List.Forall₂ (fun node node' => ∃ ρ, node.IsRenamed r t n ρ ∧ node' = node.rename ρ)
    s.stack s'.stack
  bound_eq : s'.bound = s.bound
  best : Option.Rel (IntegerSolution.Mirrors r t) s.best s'.best
  visited_eq : s'.visited = s.visited

namespace BranchAndBound

/-- Two ends of searches that differ only in names: the names of the tableau are renamed, and in
place of a new slack variable stands the one that has been added as its counterpart. -/
inductive Mirrors (r : String → String) (t : Tableau α) :
    Outcome (IntegerSolution α) → Outcome (IntegerSolution α) → Prop where
  | found {x y : IntegerSolution α} (h : x.Mirrors r t y) : Mirrors r t (.ok x) (.ok y)
  | failed (failure : Failure) : Mirrors r t (.error failure) (.error (failure.rename r))
  | unbounded {name name' : String} {k i : Nat} (hname : (freshNames t.names k)[i]? = some name)
      (hname' : (freshNames (t.names.map r) k)[i]? = some name') :
      Mirrors r t (.refuse (.unbounded name)) (.refuse (.unbounded name'))

variable {b : BranchAndBound α} {integer : List Bool}

/-- The variable in which a node is unbounded is one of its variables. -/
theorem exists_column_of_unbounded [LawfulUnits α] {node : Node α}
    (hnode : node.revision.IsReady integer.length) {bound : Option α} {number : Nat} {name : String}
    (h : (b.visit integer bound number node).outcome = Outcome.refuse (.unbounded name)) :
    ∃ column : Nat, node.revision.tableau.names[column]? = some name := by
  rw [visit, Recorded.outcome_andThen] at h
  rcases b.solver.run_outcome hnode.isWellFormed node.revision.initialRows with
    ⟨solution, hrun⟩ | hlimit
  · have hresolve : (b.solver.resolve node.revision).outcome = .ok solution := hrun
    rw [hresolve, Outcome.ok_bind] at h
    cases hstatus : solution.status with
    | optimal =>
      obtain ⟨visit, hvisit, -⟩ :=
        exists_examine_of_isReady (hnode.run hresolve) hstatus bound number node.depth
      rw [hstatus] at h
      dsimp only at h
      rw [hvisit] at h
      cases h
    | infeasible row name =>
      rw [hstatus] at h
      cases h
    | unbounded column name' =>
      rw [hstatus] at h
      cases h
      exact ⟨column, (Solver.names_of_run hrun).2.2 column name hstatus⟩
  · have hlimit : (b.solver.resolve node.revision).outcome =
        Outcome.refuse (.iterationLimit b.solver.maxIterations) := hlimit
    rw [hlimit] at h
    cases h

/-- An unbounded variable of a node is renamed, or both searches have added it. -/
theorem mirrors_unbounded {node : Node α} (hnode : node.IsRenamed r t n ρ) {column : Nat}
    {name : String} (hcolumn : node.revision.tableau.names[column]? = some name) :
    Mirrors r t (Outcome.refuse (.unbounded name)) (Outcome.refuse (.unbounded (ρ name))) := by
  obtain ⟨k, hnames, hfresh⟩ := hnode.names_eq
  rw [hnames] at hcolumn
  rcases Nat.lt_or_ge column t.names.length with hlt | hge
  · rw [List.getElem?_append_left hlt] at hcolumn
    rw [hnode.map_eq name (List.mem_of_getElem? hcolumn)]
    exact .failed (.refused (.unbounded name))
  · rw [List.getElem?_append_right hge] at hcolumn
    have hrenamed : (freshNames (t.names.map r) k)[column - t.names.length]? = some (ρ name) := by
      rw [← hfresh, List.getElem?_map, hcolumn]
      rfl
    exact .unbounded hcolumn hrenamed

/-- Where the visit of a node fails, the visit of its counterpart fails alike. -/
theorem mirrors_of_visit_eq_error [LawfulUnits α] {node : Node α}
    (hnode : node.IsRenamed r t integer.length ρ) {bound : Option α} {number : Nat}
    {failure : Failure} (h : (b.visit integer bound number node).outcome = .error failure) :
    Mirrors r t (.error failure) (.error (failure.rename ρ)) := by
  -- a half is ready and can fail in two ways only; the first node may fail in any way, and is
  -- renamed by `r`
  rcases hnode.isReady_or_eq with hready | rfl
  · have hvisit := b.visit_of_isReady hready bound number
    rw [h] at hvisit
    rcases hvisit with ⟨visit, hok, -⟩ | hfails
    · cases hok
    · cases hfails with
      | limited => exact .failed _
      | unbounded name =>
        obtain ⟨column, hcolumn⟩ := exists_column_of_unbounded hready h
        exact mirrors_unbounded hnode hcolumn
  · exact .failed failure

/-- A half of a relaxation has one more variable, named by the first name that is not used. -/
theorem IsSplit.names_eq [LawfulUnits α] {solution : Solution α} {column : Nat} {value : α}
    {snapshot : Snapshot α} {lower upper : Revision α}
    (h : IsSplit solution column value snapshot lower upper) : ∀ half ∈ [lower, upper],
      half.tableau.names = solution.tableau.names ++ [freshName solution.tableau.names] := by
  obtain ⟨-, htableau, -, hcaptured⟩ := Solution.snapshot_eq_ok.1 h.snapshot_eq
  have hhalf : ∀ {sign bound : α} {revision : Revision α},
      snapshot.apply (boundRequest solution.tableau.width column sign bound) = .ok revision →
        revision.tableau.names = solution.tableau.names ++ [freshName solution.tableau.names] := by
    intro sign bound revision happly
    have hnames := (Snapshot.extends_apply hcaptured happly).names_eq
    rw [htableau] at hnames
    simpa [boundRequest, Request.newNames, Request.newRows, freshNames] using hnames
  exact List.forall_mem_cons.2 ⟨hhalf h.lower_eq, List.forall_mem_singleton.2 (hhalf h.upper_eq)⟩

/-- The halves of a node correspond by a renaming that continues the one of the node. -/
theorem isRenamed_of_split [LawfulUnits α] {node : Node α}
    (hnode : node.IsRenamed r t integer.length ρ) (hρ' : Continues ρ' ρ node.revision.tableau.names)
    {bound : Option α} {number : Nat} {lower upper : Revision α}
    (h : (b.visit integer bound number node).outcome = .ok (.split lower upper)) :
    ∀ half ∈ [lower, upper], Node.IsRenamed r t integer.length ρ' ⟨half, node.depth + 1⟩ := by
  obtain ⟨solution, hrun, hfinds⟩ := finds_of_visit h
  obtain ⟨k, hnames, hfresh⟩ := hnode.names_eq
  have hsolution : solution.tableau.names = node.revision.tableau.names :=
    (Solver.names_of_run hrun).2.1
  have hready : ∀ half ∈ [lower, upper], half.IsReady integer.length := by
    have hhalves := isReady_of_visit_eq_ok hnode.isRunnable h
    exact List.forall_mem_cons.2 ⟨hhalves.1, List.forall_mem_singleton.2 hhalves.2⟩
  cases hfinds with
  | split hstatus hpruned hfound hsplit =>
    intro half hhalf
    have hhalfNames := hsplit.names_eq half hhalf
    rw [hsolution, hnames] at hhalfNames
    rw [hnames] at hρ'
    refine ⟨hρ'.injective, fun name hname => ?_, ⟨k + 1, ?_, ?_⟩, (hready half hhalf).isRunnable,
      .inl (hready half hhalf)⟩
    · rw [hρ'.map_eq name (List.mem_append_left _ hname), hnode.map_eq name hname]
    · rw [hhalfNames, freshNames_succ, List.append_assoc]
    · exact hρ'.map_freshNames hnode.map_eq hfresh

/-- The names in an assignment are names of the tableau in which the search began. -/
theorem mem_names_of_integral {node : Node α} (hnode : node.IsRenamed r t integer.length ρ)
    (hlen : integer.length ≤ t.width) {bound : Option α} {number : Nat} {objective : α}
    {named : List (String × α)} {last : Tableau α}
    (h : (b.visit integer bound number node).outcome = .ok (.integral objective named last)) :
    ∀ p ∈ named, p.1 ∈ t.names := by
  obtain ⟨solution, hrun, hfinds⟩ := finds_of_visit h
  obtain ⟨hwf, hsolution, -⟩ := Solver.names_of_run hrun
  obtain ⟨k, hnames, -⟩ := hnode.names_eq
  have htake : solution.tableau.names.take integer.length = t.names.take integer.length := by
    rw [hsolution, hnames, List.take_append_of_le_length hlen]
  cases hfinds with
  | integral hstatus hpruned hfound hnamed =>
    rw [assignment, Tableau.values_eq_ok hwf.toIsValid, Outcome.ok_bind, Outcome.pure_eq,
      Except.ok.injEq] at hnamed
    subst hnamed
    intro p hp
    rw [List.mem_mergeSort, ← List.map_take, htake] at hp
    obtain ⟨_, hvalue, rfl⟩ := List.mem_map.1 hp
    obtain ⟨name, hname, rfl⟩ := List.mem_map.1 hvalue
    exact List.mem_of_mem_take hname

/-! ### The whole search -/

omit [Scalar α] in
theorem renameKeys_congr {named : List (String × α)} (h : ∀ p ∈ named, ρ p.1 = r p.1) :
    renameKeys ρ named = renameKeys r named := by
  have hmap : named.map (Prod.map ρ id) = named.map (Prod.map r id) :=
    List.map_congr_left fun p hp => Prod.ext (h p hp) rfl
  rw [renameKeys, renameKeys, hmap]

/-- After corresponding nodes have been visited, the searches still correspond. -/
theorem mirrors_record [LawfulUnits α] {s s' : Search α} (hs : s.Mirrors r t integer.length s')
    (hlen : integer.length ≤ t.width) {node : Node α} {rest rest' : List (Node α)}
    (hnode : node.IsRenamed r t integer.length ρ)
    (hrest : List.Forall₂ (fun node node' => ∃ ρ, node.IsRenamed r t integer.length ρ ∧
      node' = node.rename ρ) rest rest')
    (hρ' : Continues ρ' ρ node.revision.tableau.names) {visit : Visit α}
    (hvisit : (b.visit integer s.bound (s.visited + 1) node).outcome = .ok visit)
    (events events' : List (Event α)) :
    (record s node rest events visit).Mirrors r t integer.length
      (record s' (node.rename ρ) rest' events' (visit.rename ρ ρ')) := by
  have hvisited : s'.visited + 1 = s.visited + 1 := by rw [hs.visited_eq]
  cases visit with
  | infeasible => exact ⟨hrest, hs.bound_eq, hs.best, hvisited⟩
  | pruned => exact ⟨hrest, hs.bound_eq, hs.best, hvisited⟩
  | integral objective named last =>
    have hkeys : renameKeys ρ named = renameKeys r named :=
      renameKeys_congr fun p hp =>
        hnode.map_eq p.1 (mem_names_of_integral hnode hlen hvisit p hp)
    exact ⟨hrest, rfl, .some ⟨rfl, hkeys, hvisited, ρ, hnode.injective, hnode.map_eq, rfl⟩,
      hvisited⟩
  | split lower upper =>
    have hhalves := isRenamed_of_split hnode hρ' hvisit
    exact ⟨.cons ⟨ρ', hhalves lower (by simp), rfl⟩
      (.cons ⟨ρ', hhalves upper (by simp), rfl⟩ hrest), hs.bound_eq, hs.best, hvisited⟩

theorem mirrors_explore_nil (b : BranchAndBound α) {s s' : Search α} (hs : s.Mirrors r t n s')
    (hstack : s.stack = []) (remaining : Nat) :
    Mirrors r t (b.explore integer remaining s).outcome
      (b.explore integer remaining s').outcome := by
  have hstack' : s'.stack = [] := List.forall₂_nil_left_iff.1 (hstack ▸ hs.stack)
  have hbest := hs.best
  rw [explore.eq_def, explore.eq_def]
  simp only [hstack, hstack']
  cases hfirst : s.best with
  | none =>
    cases hsecond : s'.best with
    | none => exact .failed (.refused .noIntegerSolution)
    | some y =>
      rw [hfirst, hsecond] at hbest
      cases hbest
  | some x =>
    cases hsecond : s'.best with
    | none =>
      rw [hfirst, hsecond] at hbest
      cases hbest
    | some y =>
      rw [hfirst, hsecond] at hbest
      cases hbest with
      | some h => exact .found ⟨h.objective_eq, h.assignment_eq, hs.visited_eq, h.tableau_eq⟩

/-- Searches that correspond end alike. -/
theorem mirrors_explore [LawfulUnits α] (b : BranchAndBound α) (hlen : integer.length ≤ t.width)
    (remaining : Nat) {s s' : Search α} (hs : s.Mirrors r t integer.length s') :
    Mirrors r t (b.explore integer remaining s).outcome
      (b.explore integer remaining s').outcome := by
  induction remaining generalizing s s' with
  | zero =>
    cases hstack : s.stack with
    | nil => exact mirrors_explore_nil b hs hstack 0
    | cons node rest =>
      obtain ⟨node', rest', -, -, hstack'⟩ := List.forall₂_cons_left_iff.1 (hstack ▸ hs.stack)
      rw [explore_zero_of_cons hstack, explore_zero_of_cons hstack']
      exact .failed (.refused (.iterationLimit b.maxNodes))
  | succ remaining ih =>
    cases hstack : s.stack with
    | nil => exact mirrors_explore_nil b hs hstack _
    | cons node rest =>
      obtain ⟨node', rest', ⟨ρ, hnode, rfl⟩, hrest, hstack'⟩ :=
        List.forall₂_cons_left_iff.1 (hstack ▸ hs.stack)
      -- failures are renamed as the node is, halves by a renaming that also knows their new
      -- variable
      obtain ⟨ρ', hρ'⟩ := exists_continues hnode.injective node.revision.tableau.names
      have hvisits : (b.visit integer s'.bound (s'.visited + 1) (node.rename ρ)).outcome =
          (b.visit integer s.bound (s.visited + 1) node).outcome.rename ρ (Visit.rename ρ ρ') := by
        rw [hs.bound_eq, hs.visited_eq]
        exact b.visit_rename hnode.injective hρ' s.bound (s.visited + 1)
      cases hvisit : (b.visit integer s.bound (s.visited + 1) node).outcome with
      | error failure =>
        rw [hvisit] at hvisits
        rw [explore_succ_of_error hstack hvisit, explore_succ_of_error hstack' hvisits]
        exact mirrors_of_visit_eq_error hnode hvisit
      | ok visit =>
        rw [hvisit] at hvisits
        rw [explore_succ_of_ok hstack hvisit, explore_succ_of_ok hstack' hvisits]
        exact ih (mirrors_record hs hlen hnode hrest hρ' hvisit _ _)

/-- The searches from a tableau and from its renaming correspond when they begin. -/
theorem mirrors_start (b : BranchAndBound α) (hr : Function.Injective r) (ht : t.IsValid)
    (hlen : integer.length = t.structural) :
    (b.start t).Mirrors r t integer.length (b.start (t.rename r)) := by
  have hroot : Node.IsRenamed r t integer.length r ⟨⟨t, t.rows⟩, 0⟩ :=
    ⟨hr, fun _ _ => rfl, ⟨0, (List.append_nil _).symm, rfl⟩, ⟨ht, ht.hasShape, hlen.symm⟩, .inr rfl⟩
  have hbest : Option.Rel (IntegerSolution.Mirrors r t) none none := .none
  exact ⟨.cons ⟨r, hroot, rfl⟩ .nil, rfl, hbest, rfl⟩

/-- A search from a renamed tableau ends as the search from the tableau does. -/
theorem mirrors_solve [LawfulUnits α] (b : BranchAndBound α) (hr : Function.Injective r)
    (t : Tableau α) (integer : List Bool) :
    Mirrors r t (b.solve t integer).outcome (b.solve (t.rename r) integer).outcome := by
  cases hvalid : t.validate with
  | error failure =>
    have hrenamed := t.validate_rename hr
    rw [hvalid] at hrenamed
    rw [solve, solve, Recorded.outcome_andThen, Recorded.outcome_andThen, Recorded.outcome_quiet,
      Recorded.outcome_quiet, hvalid, hrenamed]
    exact .failed failure
  | ok u =>
    have ht := Tableau.validate_eq_ok.1 hvalid
    have ht' : (t.rename r).IsValid := by
      rw [← Tableau.validate_eq_ok, t.validate_rename hr, hvalid]
      rfl
    by_cases hlen : integer.length = t.structural
    · rw [solve_eq_explore b ht hlen, solve_eq_explore b ht' (t.structural_rename ▸ hlen)]
      exact mirrors_explore b (hlen ▸ Nat.sub_le _ _) _ (b.mirrors_start hr ht hlen)
    · rw [solve_of_length_ne b ht hlen, solve_of_length_ne b ht' (t.structural_rename ▸ hlen),
        t.structural_rename]
      exact .failed _

end BranchAndBound

end

namespace BranchAndBound

/-- Names never influence numbers. For every tableau, all options and every renaming that keeps
different names different, the renamed tableau is solved with the same events, hence with the same
pivots, elements and ratios, and the result is the renamed solution or the renamed failure. A search
ends alike: with the same objective, number of nodes and numbers of the last tableau and with the
renamed assignment, or with the renamed failure; only in place of a slack variable that the search
itself has added stands the one that the renamed search has added for it. -/
theorem solve_rename (s : Solver) (b : BranchAndBound Float) {r : String → String}
    (hr : Function.Injective r) (t : Tableau Float) (integer : List Bool) :
    s.solve (t.rename r) = (s.solve t).rename r (Solution.rename r) ∧
      Mirrors r t (b.solve t integer).outcome (b.solve (t.rename r) integer).outcome :=
  ⟨s.run_rename hr t t.rows, b.mirrors_solve hr t integer⟩

/-- The product gets a name that is not that of a slack variable. The search then gives the name
that has become free to its own slack variable, and finds the same point. -/
theorem solve_rename_oneResource :
    let t := Tableau.oneResource
    let r : String → String := Equiv.swap "s1" "a"
    let s : Solver := {}
    let b : BranchAndBound Float :=
      { incumbent := some Double.negativeInfinity, maxNodes := 10 }
    Function.Injective r ∧ s.solve (t.rename r) = (s.solve t).rename r (Solution.rename r) ∧
      Mirrors r t (b.solve t [true]).outcome (b.solve (t.rename r) [true]).outcome ∧
      (fun x => (x.objective, x.nodes, x.assignment, x.tableau.names)) <$>
        (b.solve t [true]).outcome = .ok (1, 3, [("s1", 1)], ["s1", "s2", "s3"]) ∧
      (fun y => (y.objective, y.nodes, y.assignment, y.tableau.names)) <$>
        (b.solve (t.rename r) [true]).outcome = .ok (1, 3, [("a", 1)], ["a", "s2", "s1"]) := by
  intro t r s b
  have hr : Function.Injective r := (Equiv.swap "s1" "a").injective
  obtain ⟨hsolve, hsearch⟩ := solve_rename s b hr t [true]
  exact ⟨hr, hsolve, hsearch, by decide +kernel, by decide +kernel⟩

/-- A relaxation may be unbounded in a slack variable that the search has added. The failure then
shows the name that this search has chosen. -/
example :
    let t : Tableau Float := {
      rows := [[1, -1.3, 1]], rhs := [2.5], costs := [1e8, -1.3e8, 0]
      names := ["x1", "x2", "s1"], basis := ["s1"] }
    let b : BranchAndBound Float :=
      { incumbent := some Double.negativeInfinity, maxNodes := 20 }
    (b.solve t [true, false]).outcome = Outcome.refuse (.unbounded "s2") ∧
      (b.solve (t.rename (Equiv.swap "s1" "a")) [true, false]).outcome =
        Outcome.refuse (.unbounded "s1") := by
  decide +kernel

end BranchAndBound

end LinProg
