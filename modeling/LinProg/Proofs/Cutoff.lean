import LinProg.Proofs.Limit
import LinProg.Proofs.Totality

/-!
# Limits are pure cut-offs

A run that halts has a number of pivots of its own. Every limit from that number on leaves the run
as it is, and every smaller one is reached: the limit is compared after a pivot has been chosen and
before it is taken, so a limit that equals the number of pivots does not cut the run off. The limit
on nodes does the same to a search that comes to its end, with the number of nodes that it has
visited. Nothing else depends on either limit.
-/

namespace LinProg

open Outcome

/-! ### Runs -/

namespace Solver

variable {α : Type} [Scalar α] {s : Solver} {r : Run α}

/-- A run ends in the given way after a number of further pivots: so it does if it may take as many
or more, with any limit, and if it may take fewer it is cut off. -/
def EndsAfter (s : Solver) (r : Run α) (k : Nat) (h : Halt α) : Prop :=
  ∀ s' : Solver, s'.degenerateStreakLimit = s.degenerateStreakLimit → ∀ m,
    (k ≤ m → s'.walk m r = h) ∧
    (m < k → (s'.walk m r).outcome = refuse (.iterationLimit s'.maxIterations))

theorem endsAfter_zero {status : Status} {costs : ReducedCosts α}
    (hnext : s.next r = .ok (.halt status, costs)) : s.EndsAfter r 0 ⟨r, .ok (status, costs)⟩ :=
  fun _ hs' m => ⟨fun _ => walk_of_halt ((next_congr hs' r).trans hnext) m,
    fun hm => absurd hm m.not_lt_zero⟩

/-- The limit is compared before the pivot is taken, so one pivot more asks for one more that may be
taken. -/
theorem EndsAfter.succ {p : Pivot α} {costs : ReducedCosts α} {advanced : Run α} {k : Nat}
    {h : Halt α} (hends : s.EndsAfter advanced k h) (hnext : s.next r = .ok (.pivot p, costs))
    (hadvance : r.advance p = .ok advanced) : s.EndsAfter r (k + 1) h := by
  intro s' hs' m
  have hnext' := (next_congr hs' r).trans hnext
  cases m with
  | zero => exact ⟨fun hm => absurd hm (by omega), fun _ => by rw [walk_zero_of_pivot hnext']⟩
  | succ m =>
    obtain ⟨hsame, hlimit⟩ := hends s' hs' m
    rw [walk_succ_of_pivot hnext', hadvance]
    exact ⟨fun hm => hsame (by omega), fun hm => hlimit (by omega)⟩

/-- A run that halts does so after the pivots that it records. -/
theorem exists_endsAfter_of_walk {n : Nat} {x : Status × ReducedCosts α}
    (h : (s.walk n r).outcome = .ok x) :
    ∃ k, (s.walk n r).run.trail.length = r.trail.length + k ∧ s.EndsAfter r k (s.walk n r) := by
  induction n generalizing r with
  | zero =>
    rcases hnext : s.next r with failure | ⟨p | status, costs⟩
    · rw [walk_of_error hnext] at h
      cases h
    · rw [walk_zero_of_pivot hnext] at h
      cases h
    · rw [walk_of_halt hnext]
      exact ⟨0, rfl, endsAfter_zero hnext⟩
  | succ n ih =>
    rcases hnext : s.next r with failure | ⟨p | status, costs⟩
    · rw [walk_of_error hnext] at h
      cases h
    · rw [walk_succ_of_pivot hnext] at h ⊢
      cases hadvance : r.advance p with
      | error failure =>
        rw [hadvance] at h
        cases h
      | ok advanced =>
        rw [hadvance] at h
        obtain ⟨k, hlength, hends⟩ := ih h
        obtain ⟨step, htrail, -⟩ := trail_of_advance hadvance
        rw [htrail, List.length_cons] at hlength
        exact ⟨k + 1, by rw [hlength]; omega, hends.succ hnext hadvance⟩
    · rw [walk_of_halt hnext]
      exact ⟨0, rfl, endsAfter_zero hnext⟩

/-- With a limit of at least its number of pivots a run that gives a solution is the same, and with
every smaller limit it is cut off. -/
theorem run_eq_or_iterationLimit {t : Tableau α} {initialRows : Rows α} {solution : Solution α}
    (h : (s.run t initialRows).outcome = .ok solution) (limit : Nat) :
    (solution.pivots ≤ limit →
      ({ s with maxIterations := limit } : Solver).run t initialRows = s.run t initialRows) ∧
    (limit < solution.pivots →
      (({ s with maxIterations := limit } : Solver).run t initialRows).outcome =
        refuse (.iterationLimit limit)) := by
  obtain ⟨ht, last, hend⟩ := run_eq_ok h
  have hhalts : ∃ x, (s.walk s.maxIterations (.start t)).outcome = .ok x := by
    rcases walk_outcome s s.maxIterations (r := .start t) ht with ⟨status, costs, hok⟩ | hlimit
    · exact ⟨_, hok⟩
    · rw [s.run_eq_error ht initialRows hlimit] at h
      cases h
  obtain ⟨x, hx⟩ := hhalts
  obtain ⟨k, hlength, hends⟩ := exists_endsAfter_of_walk hx
  obtain ⟨hsame, hlimit⟩ := hends { s with maxIterations := limit } rfl limit
  have hpivots : solution.pivots = k := by
    rw [Solution.pivots, hend.steps_eq, List.length_reverse, ← hend.run_eq, hlength]
    exact Nat.zero_add k
  rw [hpivots]
  refine ⟨fun hk => ?_, fun hk => run_eq_error _ ht initialRows (hlimit hk)⟩
  rw [run, run, hsame hk]

end Solver

/-! ### Searches -/

namespace BranchAndBound

variable {α : Type} [Scalar α] {b : BranchAndBound α} {integer : List Bool} {s : Search α}

/-- The search has visited all nodes: it has a solution, or there is none. -/
def IsConclusive (o : Outcome (IntegerSolution α)) : Prop :=
  (∃ solution, o = .ok solution) ∨ o = refuse .noIntegerSolution

/-- A search ends in the given way after a number of further nodes: so it does if it may visit as
many or more, with any limit, and if it may visit fewer it is cut off. -/
def EndsAfter (b : BranchAndBound α) (integer : List Bool) (s : Search α) (k : Nat)
    (ended : Recorded α (IntegerSolution α)) : Prop :=
  ∀ b' : BranchAndBound α, b'.solver = b.solver → ∀ m,
    (k ≤ m → b'.explore integer m s = ended) ∧
    (m < k → (b'.explore integer m s).outcome = refuse (.iterationLimit b'.maxNodes))

/-! ### One node more -/

section

variable {node : Node α} {rest : List (Node α)} (hstack : s.stack = node :: rest)

include hstack

theorem explore_zero_of_cons :
    b.explore integer 0 s = ⟨s.events.reverse, refuse (.iterationLimit b.maxNodes)⟩ := by
  rw [explore.eq_def]
  simp only [hstack]

theorem explore_succ_of_error {failure : Failure}
    (hvisit : (b.visit integer s.bound (s.visited + 1) node).outcome = .error failure)
    (n : Nat) : (b.explore integer (n + 1) s).outcome = .error failure := by
  rw [explore.eq_def]
  simp only [hstack, hvisit]

theorem explore_succ_of_ok {visit : Visit α}
    (hvisit : (b.visit integer s.bound (s.visited + 1) node).outcome = .ok visit) (n : Nat) :
    b.explore integer (n + 1) s = b.explore integer n
      (record s node rest (b.visit integer s.bound (s.visited + 1) node).events visit) := by
  rw [explore.eq_def]
  simp only [hstack, hvisit]

theorem EndsAfter.succ {visit : Visit α} {k : Nat} {ended : Recorded α (IntegerSolution α)}
    (hvisit : (b.visit integer s.bound (s.visited + 1) node).outcome = .ok visit)
    (hends : b.EndsAfter integer
      (record s node rest (b.visit integer s.bound (s.visited + 1) node).events visit) k ended) :
    b.EndsAfter integer s (k + 1) ended := by
  intro b' hb' m
  have hsame : b'.visit integer s.bound (s.visited + 1) node =
      b.visit integer s.bound (s.visited + 1) node := by
    rw [BranchAndBound.visit, BranchAndBound.visit, hb']
  cases m with
  | zero => exact ⟨fun hm => absurd hm (by omega), fun _ => by rw [explore_zero_of_cons hstack]⟩
  | succ m =>
    obtain ⟨hequal, hlimit⟩ := hends b' hb' m
    rw [explore_succ_of_ok hstack (hsame ▸ hvisit), hsame]
    exact ⟨fun hm => hequal (by omega), fun hm => hlimit (by omega)⟩

end

/-- A search without further nodes is at its end, whatever it may still visit. -/
theorem endsAfter_zero (b : BranchAndBound α) (hstack : s.stack = []) (n : Nat) :
    b.EndsAfter integer s 0 (b.explore integer n s) := by
  refine fun b' _ m => ⟨fun _ => ?_, fun hm => absurd hm m.not_lt_zero⟩
  rw [explore.eq_def, explore.eq_def b]
  simp only [hstack]

/-! ### The whole search -/

/-- A search is conclusive only from a valid tableau with a requirement for each structural
variable. -/
theorem isValid_of_isConclusive {t : Tableau α} (h : IsConclusive (b.solve t integer).outcome) :
    t.IsValid ∧ integer.length = t.structural := by
  rcases answers_iff.1 t.validate_answers with ⟨⟨⟩, hvalid⟩ | ⟨cause, hcause, hrefused⟩
  · have ht := Tableau.validate_eq_ok.1 hvalid
    refine ⟨ht, ?_⟩
    by_contra hlen
    rw [b.solve_of_length_ne ht hlen] at h
    rcases h with ⟨solution, h⟩ | h <;> cases h
  · rw [solve, Recorded.outcome_andThen, Recorded.outcome_quiet, hrefused] at h
    rcases h with ⟨solution, h⟩ | h
    · cases h
    · cases h
      cases hcause

/-- A solution counts the nodes that have been visited when there are no more. -/
theorem nodes_eq_visited {last : Search α} (hstack : last.stack = []) {solution : IntegerSolution α}
    (h : (b.explore integer 0 last).outcome = .ok solution) : solution.nodes = last.visited := by
  have hends : b.EndsWith integer 0 last _ := b.explore_nil hstack 0 0
  rw [h] at hends
  cases hends
  rfl

/-- A search that visits all nodes comes to an end without further nodes, after the nodes that it
counts. The visit of a node is never refused for the lack of a solution, so the search cannot stop
there. -/
theorem exists_endsAfter_of_explore [LawfulUnits α] {n : Nat} (hs : AreRunnable integer.length s)
    (h : IsConclusive (b.explore integer n s).outcome) :
    ∃ last k, Relation.ReflTransGen (b.Steps integer) s last ∧ last.stack = [] ∧
      last.visited = s.visited + k ∧ k ≤ n ∧
      b.explore integer n s = b.explore integer 0 last ∧
      b.EndsAfter integer s k (b.explore integer n s) := by
  induction n generalizing s with
  | zero =>
    cases hstack : s.stack with
    | nil => exact ⟨s, 0, .refl, hstack, rfl, le_rfl, rfl, b.endsAfter_zero hstack 0⟩
    | cons node rest =>
      rw [explore_zero_of_cons hstack] at h
      rcases h with ⟨solution, h⟩ | h <;> cases h
  | succ n ih =>
    cases hstack : s.stack with
    | nil =>
      exact ⟨s, 0, .refl, hstack, rfl, Nat.zero_le _,
        ((b.endsAfter_zero hstack _ b rfl 0).1 le_rfl).symm, b.endsAfter_zero hstack _⟩
    | cons node rest =>
      have hnode := hs node (hstack ▸ List.mem_cons_self)
      rcases b.visit_answers hnode s.bound (s.visited + 1) with
        ⟨visit, hvisit, -⟩ | ⟨cause, hcause, hvisit⟩
      · have hstep : b.Steps integer s _ := ⟨node, rest, visit, hstack, hvisit, rfl⟩
        rw [explore_succ_of_ok hstack hvisit] at h ⊢
        obtain ⟨last, k, hreaches, hempty, hvisited, hk, hlast, hends⟩ :=
          ih (hstep.areRunnable hs) h
        rw [visited_record] at hvisited
        exact ⟨last, k + 1, hreaches.head hstep, hempty, by omega, by omega, hlast,
          hends.succ hstack hvisit⟩
      · rw [explore_succ_of_error hstack hvisit] at h
        rcases h with ⟨solution, h⟩ | h
        · cases h
        · cases h
          cases hcause

/-- Both limits are pure cut-offs. A run that gives a solution gives the same with every limit from
its number of pivots on, and reaches every smaller limit. A search that gives a solution, or finds
that there is none, does the same with every limit from its number of nodes on, and reaches every
smaller limit. The number of nodes is the number of visits up to the state in which no node is left,
and a solution tells it. -/
theorem limits_cut_off (s : Solver) (b : BranchAndBound Float) (t : Tableau Float)
    (integer : List Bool) :
    (∀ solution, (s.solve t).outcome = .ok solution → ∀ limit,
      (solution.pivots ≤ limit →
        ({ s with maxIterations := limit } : Solver).solve t = s.solve t) ∧
      (limit < solution.pivots →
        (({ s with maxIterations := limit } : Solver).solve t).outcome =
          Outcome.refuse (.iterationLimit limit))) ∧
    (((∃ solution, (b.solve t integer).outcome = .ok solution) ∨
        (b.solve t integer).outcome = Outcome.refuse .noIntegerSolution) →
      ∃ last, Relation.ReflTransGen (b.Steps integer) (b.start t) last ∧ last.stack = [] ∧
        last.visited ≤ b.maxNodes ∧
        (∀ solution, (b.solve t integer).outcome = .ok solution → solution.nodes = last.visited) ∧
        ∀ limit,
          (last.visited ≤ limit →
            ({ b with maxNodes := limit } : BranchAndBound Float).solve t integer =
              b.solve t integer) ∧
          (limit < last.visited →
            (({ b with maxNodes := limit } : BranchAndBound Float).solve t integer).outcome =
              Outcome.refuse (.iterationLimit limit))) := by
  constructor
  · exact fun solution hsolution limit => Solver.run_eq_or_iterationLimit hsolution limit
  · intro hconclusive
    obtain ⟨ht, hlen⟩ := isValid_of_isConclusive hconclusive
    rw [b.solve_eq_explore ht hlen] at hconclusive ⊢
    obtain ⟨last, k, hreaches, hstack, hvisited, hk, hlast, hends⟩ :=
      exists_endsAfter_of_explore (b.areRunnable_start ht hlen) hconclusive
    have hvisited : last.visited = k := hvisited.trans (Nat.zero_add k)
    refine ⟨last, hreaches, hstack, hvisited ▸ hk, fun solution hsolution => ?_, fun limit => ?_⟩
    · rw [hlast] at hsolution
      exact nodes_eq_visited hstack hsolution
    · rw [hvisited, solve_eq_explore _ ht hlen]
      exact hends { b with maxNodes := limit } rfl limit

/-- One product from one resource takes one pivot, and three nodes in whole units: the limits one
and three change nothing, and the limits zero and two are reached. -/
theorem limits_cut_off_oneResource :
    let t := Tableau.oneResource
    let s : Solver := {}
    let b : BranchAndBound Float := { incumbent := some Double.negativeInfinity }
    (({ s with maxIterations := 1 } : Solver).solve t = s.solve t ∧
      (({ s with maxIterations := 0 } : Solver).solve t).outcome =
        Outcome.refuse (.iterationLimit 0)) ∧
    (({ b with maxNodes := 3 } : BranchAndBound Float).solve t [true] = b.solve t [true] ∧
      (({ b with maxNodes := 2 } : BranchAndBound Float).solve t [true]).outcome =
        Outcome.refuse (.iterationLimit 2)) := by
  intro t s b
  have hpivots : Solution.pivots <$> (s.solve t).outcome = .ok 1 := by decide +kernel
  have hnodes : IntegerSolution.nodes <$> (b.solve t [true]).outcome = .ok 3 := by decide +kernel
  obtain ⟨solution, hsolution, hpivots⟩ := map_eq_ok.1 hpivots
  obtain ⟨whole, hwhole, hnodes⟩ := map_eq_ok.1 hnodes
  obtain ⟨hruns, hsearches⟩ := limits_cut_off s b t [true]
  obtain ⟨last, -, -, -, hcount, hlimits⟩ := hsearches (.inl ⟨whole, hwhole⟩)
  have hvisited : last.visited = 3 := (hcount whole hwhole).symm.trans hnodes
  refine ⟨⟨(hruns solution hsolution 1).1 ?_, (hruns solution hsolution 0).2 ?_⟩,
    (hlimits 3).1 ?_, (hlimits 2).2 ?_⟩
  · exact hpivots.le
  · exact hpivots.symm ▸ Nat.zero_lt_one
  · exact hvisited.le
  · exact hvisited.symm ▸ Nat.lt_succ_self 2

end BranchAndBound

end LinProg
