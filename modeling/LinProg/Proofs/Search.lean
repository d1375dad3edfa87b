import LinProg.Proofs.Readiness

/-!
# Branch and bound finds the integer optimum

A search is sound if its nodes only restrict the program, its best solution is a point with the
required whole values, and every such point that is better than the bound is still in some node of
the stack. In exact arithmetic each visit is right about its node, so a search that is sound stays
so from one node to the next; when the stack is empty, no point is better than the bound.
-/

namespace LinProg

/-! ### Whole values -/

/-- The variables that are required to be whole have whole values. -/
def IsIntegral (integer : List Bool) (y : ℕ → ℚ) : Prop :=
  ∀ j, integer[j]? = some true → ∃ n : ℤ, y j = n

theorem IsIntegral.congr {integer : List Bool} {y y' : ℕ → ℚ} (hy : IsIntegral integer y)
    (h : ∀ j < integer.length, y' j = y j) : IsIntegral integer y' := by
  intro j hj
  rw [h j (List.getElem?_eq_some_iff.1 hj).1]
  exact hy j hj

theorem isInteger_iff {v : ℚ} : Scalar.isInteger v = true ↔ ∃ n : ℤ, v = n := by
  have hwhole : Scalar.isInteger v = (((v.floor : ℤ) : ℚ) == v) := Bool.true_and _
  rw [hwhole, beq_iff_eq]
  constructor
  · intro h
    exact ⟨v.floor, h.symm⟩
  · rintro ⟨n, rfl⟩
    rw [Rat.floor_intCast]

/-- A whole number is at most the value rounded down, or at least the value rounded up. -/
theorem le_floor_or_ceil_le (n : ℤ) (v : ℚ) :
    (n : ℚ) ≤ Arithmetic.floor v ∨ Arithmetic.ceil v ≤ (n : ℚ) := by
  rcases le_total (n : ℚ) v with hle | hge
  · exact .inl (Int.cast_le.2 (Rat.le_floor_iff.2 hle))
  · exact .inr (Int.cast_le.2 (Rat.ceil_le_iff.2 hge))

/-- The names of the structural variables with their values at a point. -/
def Tableau.namedValues (t : Tableau ℚ) (y : ℕ → ℚ) : List (String × ℚ) :=
  (t.names.take t.structural).zipIdx.map fun (name, j) => (name, y j)

theorem Revision.Narrows.namedValues_eq {r : Revision ℚ} {t : Tableau ℚ} (h : r.Narrows t)
    (y : ℕ → ℚ) : r.tableau.namedValues y = t.namedValues y := by
  obtain ⟨added, hadded⟩ := h.names_prefix
  have hstructural : t.structural ≤ t.names.length := Nat.sub_le _ _
  rw [Tableau.namedValues, Tableau.namedValues, h.structural_eq, ← hadded,
    List.take_append_of_le_length hstructural]

/-! ### What is found at a relaxation -/

/-- What is found at a relaxation is right about its points. -/
def Visit.IsRight (t : Tableau ℚ) (integer : List Bool) (bound : Option ℚ) : Visit ℚ → Prop
  | .infeasible => ∀ y, ¬ t.IsFeasible y
  | .pruned => ∃ b ∈ bound, ∀ y, t.IsFeasible y → t.valueAt y ≤ b
  | .integral objective assignment _ =>
    (∀ b ∈ bound, b < objective) ∧ (∀ y, t.IsFeasible y → t.valueAt y ≤ objective) ∧
      ∃ y, t.IsFeasible y ∧ IsIntegral integer y ∧ t.valueAt y = objective ∧
        assignment.Perm (t.namedValues y)
  | .split lower upper =>
    lower.Narrows t ∧ upper.Narrows t ∧ ∀ y, t.IsFeasible y → IsIntegral integer y →
      ∃ r, (r = lower ∨ r = upper) ∧ ∃ y', r.tableau.IsFeasible y' ∧ ∀ j < t.width, y' j = y j

namespace BranchAndBound

section

variable {t : Tableau ℚ}

/-- The basic solution has whole values where they are required if no fractional one is found. -/
theorem isIntegral_of_fractional? {integer : List Bool} (ht : t.IsCanonical)
    (h : fractional? integer t = .ok none) : IsIntegral integer t.basicPoint := by
  rw [fractional?, ht.basicColumns_eq, Outcome.ok_bind, Outcome.pure_eq, Except.ok.injEq,
    List.find?_eq_none] at h
  intro j hj
  by_cases hbasic : ∃ i < t.height, t.basicColumn i = j
  · obtain ⟨i, hi, rfl⟩ := hbasic
    have hvalue := List.getElem?_eq_getElem (ht.length_rhs.symm ▸ hi)
    have hmem : (t.basicColumn i, t.rhsAt i) ∈ (t.basis.map t.names.idxOf).zip t.rhs := by
      refine List.mem_iff_getElem?.2 ⟨i, ?_⟩
      rw [List.zip, List.getElem?_zipWith, Tableau.getD_map_idxOf ht.toIsValid hi, hvalue,
        Tableau.rhsAt, List.getD_eq_getElem?_getD, hvalue, Option.getD_some]
    have hwhole := h _ hmem
    simp only [hj, beq_self_eq_true, Bool.true_and, Bool.not_eq_true, Bool.not_eq_false'] at hwhole
    rw [Tableau.basicPoint, ht.atBasis_basicColumn _ hi]
    exact isInteger_iff.1 hwhole
  · refine ⟨0, ?_⟩
    rw [Int.cast_zero]
    exact Tableau.atBasis_of_ne fun i hi hij => hbasic ⟨i, hi, hij⟩

/-- The assignment of a canonical tableau is that of its basic point. -/
theorem perm_of_assignment (ht : t.IsCanonical) {named : List (String × ℚ)}
    (h : assignment t.structural t = .ok named) : named.Perm (t.namedValues t.basicPoint) := by
  rw [assignment, ht.values_eq, Outcome.ok_bind, Outcome.pure_eq, Except.ok.injEq] at h
  subst h
  refine (List.mergeSort_perm _ _).trans (List.Perm.of_eq ?_)
  rw [Tableau.namedValues, ← List.map_take, List.map_map]
  refine List.ext_getElem? fun j => ?_
  rw [List.getElem?_map, List.getElem?_map, List.getElem?_take, List.getElem?_zipIdx,
    List.getElem?_zipIdx, List.getElem?_take]
  split
  · cases t.names[j]? <;> rfl
  · rfl

end

/-- A relaxation is split into two halves that keep every point with a whole value of the
variable. -/
theorem IsSplit.isRight {t raw : Tableau ℚ} {solution : Solution ℚ} {column : Nat} {value : ℚ}
    {s : Snapshot ℚ} {lower upper : Revision ℚ}
    (hsplit : IsSplit solution column value s lower upper) (hsame : t.SameProgram solution.tableau)
    (h : raw.Underlies solution.tableau) (hinitial : solution.initialRows = raw.rows)
    (hcolumn : column < t.structural) : lower.Narrows t ∧ upper.Narrows t ∧
      ∀ y, t.IsFeasible y → (∃ n : ℤ, y column = n) → ∃ r, (r = lower ∨ r = upper) ∧
        ∃ y', r.tableau.IsFeasible y' ∧ ∀ j < t.width, y' j = y j := by
  rw [← hsame.structural_eq] at hcolumn
  obtain ⟨htableau, hrows, rfl, rfl⟩ :=
    hsplit.eq_boundRevision h.isCanonical.toIsWellFormed hcolumn
  rw [← htableau] at h hsame hcolumn
  rw [← hrows] at hinitial
  refine ⟨(narrows_boundRevision h hcolumn _ _ hinitial).of_sameProgram hsame,
    (narrows_boundRevision h hcolumn _ _ hinitial).of_sameProgram hsame, ?_⟩
  -- no whole number lies strictly between the two bounds
  rintro y hy ⟨n, hn⟩
  have hy := hsame.isFeasible_iff.2 hy
  rw [← hsame.width_eq]
  rcases le_floor_or_ceil_le n value with hle | hge
  · refine ⟨_, .inl rfl, exists_isFeasible_boundRevision h hcolumn _ _ hy ?_⟩
    rwa [hn, one_mul]
  · refine ⟨_, .inr rfl, exists_isFeasible_boundRevision h hcolumn _ _ hy ?_⟩
    rw [hn, neg_one_mul]
    exact neg_le_neg hge

/-- What is found at a relaxation that is not split is right. -/
theorem isRight_of_finds {s : Solver} {t : Tableau ℚ} (ht : t.IsCanonical) {initialRows : Rows ℚ}
    {solution : Solution ℚ} (hrun : (s.run t initialRows).outcome = .ok solution)
    {integer : List Bool} (hlen : integer.length = t.structural) {bound : Option ℚ}
    {visit : Visit ℚ} (hfinds : Finds integer bound solution visit)
    (hwhole : ∀ lower upper, visit ≠ .split lower upper) : visit.IsRight t integer bound := by
  obtain ⟨hcanonical, hsame⟩ := Solver.isCanonical_of_run ht hrun
  cases hfinds with
  | infeasible hstatus =>
    have hadmits := Solver.admits_of_run ht hrun
    rwa [hstatus] at hadmits
  | pruned hstatus hpruned =>
    obtain ⟨-, -, hle⟩ := Solver.optimal_of_run ht hrun hstatus
    cases bound with
    | none => cases hpruned
    | some v => exact ⟨v, rfl, fun y hy => (hle y hy).trans (of_decide_eq_true hpruned)⟩
  | integral hstatus hpruned hfound hnamed =>
    obtain ⟨hpoint, hvalue, hle⟩ := Solver.optimal_of_run ht hrun hstatus
    have hbetter : ∀ v ∈ bound, v < solution.objective := by
      rintro v rfl
      exact not_le.1 (of_decide_eq_false hpruned)
    rw [hlen, ← hsame.structural_eq] at hnamed
    have hperm := perm_of_assignment hcanonical hnamed
    rw [Tableau.namedValues, hsame.names_eq, hsame.structural_eq] at hperm
    exact ⟨hbetter, hle, _, hpoint, isIntegral_of_fractional? hcanonical hfound, hvalue, hperm⟩
  | split => exact absurd rfl (hwhole _ _)

/-- What is found at a node that narrows the program is right. -/
theorem isRight_of_visit {b : BranchAndBound ℚ} {t : Tableau ℚ} {node : Node ℚ}
    (hnode : node.revision.Narrows t) {integer : List Bool} (hlen : integer.length = t.structural)
    {bound : Option ℚ} {number : Nat} {visit : Visit ℚ}
    (h : (b.visit integer bound number node).outcome = .ok visit) :
    visit.IsRight node.revision.tableau integer bound := by
  obtain ⟨solution, hrun, hfinds⟩ := finds_of_visit h
  obtain ⟨raw, hraw, hinitial⟩ := hnode.exists_underlies
  have hlen : integer.length = node.revision.tableau.structural :=
    hlen.trans hnode.structural_eq.symm
  by_cases hwhole : ∀ lower upper, visit ≠ .split lower upper
  · exact isRight_of_finds hraw.isCanonical hrun hlen hfinds hwhole
  · cases hfinds with
    | split hstatus hpruned hfound hsplit =>
      obtain ⟨hcanonical, hsame⟩ := Solver.isCanonical_of_run hraw.isCanonical hrun
      obtain ⟨-, r, hend⟩ := Solver.run_eq_ok hrun
      obtain ⟨-, -, -, -, hrequired, -⟩ := fractional?_eq_some hcanonical.toIsWellFormed hfound
      obtain ⟨hlower, hupper, hkeep⟩ := hsplit.isRight hsame (hraw.run hrun)
        (hend.initialRows_eq.trans hinitial) (hlen ▸ (List.getElem?_eq_some_iff.1 hrequired).1)
      exact ⟨hlower, hupper, fun y hy hintegral => hkeep y hy (hintegral _ hrequired)⟩
    | _ => exact absurd (fun _ _ => nofun) hwhole

end BranchAndBound

/-! ### The search -/

/-- The objective and the assignment belong to a feasible point that has the required whole
values. -/
def IntegerSolution.IsAttained (t : Tableau ℚ) (integer : List Bool)
    (solution : IntegerSolution ℚ) : Prop :=
  ∃ y, t.IsFeasible y ∧ IsIntegral integer y ∧ t.valueAt y = solution.objective ∧
    solution.assignment.Perm (t.namedValues y)

/-- A point of a tableau agrees with a point of a program that the tableau narrows. -/
def Tableau.Keeps (t' t : Tableau ℚ) (y : ℕ → ℚ) : Prop :=
  ∃ y', t'.IsFeasible y' ∧ ∀ j < t.width, y' j = y j

/-- The nodes of a search narrow the program, its best solution is attained and improves on the
incumbent, and every point with the required whole values that is better than the bound is kept in a
node. -/
structure Search.IsSound (t : Tableau ℚ) (integer : List Bool) (incumbent : Option ℚ)
    (s : Search ℚ) : Prop where
  narrows : ∀ node ∈ s.stack, node.revision.Narrows t
  bound_eq : s.bound = (s.best.map (·.objective)).or incumbent
  attained : ∀ best ∈ s.best, best.IsAttained t integer
  improves : ∀ best ∈ s.best, ∀ i ∈ incumbent, i < best.objective
  covers : ∀ y, t.IsFeasible y → IsIntegral integer y → (∀ b ∈ s.bound, b < t.valueAt y) →
    ∃ node ∈ s.stack, node.revision.tableau.Keeps t y

namespace Search

variable {t : Tableau ℚ} {integer : List Bool} {incumbent : Option ℚ}

/-- The search from a tableau is sound. -/
theorem isSound_start (b : BranchAndBound ℚ) (ht : t.IsCanonical)
    (hid : t.rows.HasIdentityAt t.structural) : (b.start t).IsSound t integer b.incumbent where
  narrows := by
    intro node hnode
    rw [List.mem_singleton.1 hnode]
    exact .refl ht hid
  bound_eq := rfl
  attained := by
    intro best hbest
    cases hbest
  improves := by
    intro best hbest
    cases hbest
  covers := fun y hy _ _ => ⟨_, List.mem_singleton_self _, y, hy, fun _ _ => rfl⟩

namespace IsSound

variable {s : Search ℚ} (hs : s.IsSound t integer incumbent)

include hs

/-- What is better than the bound is better than the incumbent. -/
theorem lt_of_bound {v : ℚ} (hv : ∀ b ∈ s.bound, b < v) : ∀ i ∈ incumbent, i < v := by
  intro i hi
  rw [hs.bound_eq] at hv
  cases hbest : s.best with
  | none =>
    rw [hbest] at hv
    exact hv i hi
  | some best =>
    rw [hbest] at hv
    exact (hs.improves best hbest i hi).trans (hv _ rfl)

/-- A point with the required whole values that is better than the bound is kept in the next node,
as a point with the same value that has the required whole values too, or in a later one. -/
theorem covers_cons {node : Node ℚ} {rest : List (Node ℚ)} (hstack : s.stack = node :: rest)
    (hlen : integer.length = t.structural) {y : ℕ → ℚ} (hy : t.IsFeasible y)
    (hintegral : IsIntegral integer y) (hbetter : ∀ b ∈ s.bound, b < t.valueAt y) :
    (∃ y', node.revision.tableau.IsFeasible y' ∧ IsIntegral integer y' ∧
        node.revision.tableau.valueAt y' = t.valueAt y ∧ ∀ j < t.width, y' j = y j) ∨
      ∃ other ∈ rest, other.revision.tableau.Keeps t y := by
  obtain ⟨other, hother, hkeeps⟩ := hs.covers y hy hintegral hbetter
  rw [hstack] at hother
  rcases List.mem_cons.1 hother with rfl | hrest
  · obtain ⟨y', hy', hagree⟩ := hkeeps
    have hnode : other.revision.Narrows t := hs.narrows other (hstack ▸ List.mem_cons_self)
    refine .inl ⟨y', hy', hintegral.congr fun j hj => hagree j ?_, ?_, hagree⟩
    · exact (hlen ▸ hj).trans_le (Nat.sub_le _ _)
    · rw [hnode.valueAt_eq, t.valueAt_congr hagree]
  · exact .inr ⟨other, hrest, hkeeps⟩

/-- If no point of the next node is better than the bound after it, the later nodes keep every point
with the required whole values that is. -/
theorem covers_rest {node : Node ℚ} {rest : List (Node ℚ)} (hstack : s.stack = node :: rest)
    (hlen : integer.length = t.structural) {bound : Option ℚ}
    (hbound : ∀ v, (∀ b ∈ bound, b < v) → ∀ b ∈ s.bound, b < v)
    (hnode : ∀ y, node.revision.tableau.IsFeasible y →
      ∃ b ∈ bound, node.revision.tableau.valueAt y ≤ b) {y : ℕ → ℚ} (hy : t.IsFeasible y)
    (hintegral : IsIntegral integer y) (hbetter : ∀ b ∈ bound, b < t.valueAt y) :
    ∃ other ∈ rest, other.revision.tableau.Keeps t y := by
  rcases hs.covers_cons hstack hlen hy hintegral (hbound _ hbetter) with
    ⟨y', hy', -, hvalue, -⟩ | hkept
  · obtain ⟨b, hb, hle⟩ := hnode y' hy'
    rw [hvalue] at hle
    exact absurd (hbetter b hb) (not_lt.2 hle)
  · exact hkept

/-- A search stays sound when what is right about its next node is recorded. -/
theorem record {node : Node ℚ} {rest : List (Node ℚ)} (hstack : s.stack = node :: rest)
    (hlen : integer.length = t.structural) {visit : Visit ℚ}
    (hvisit : visit.IsRight node.revision.tableau integer s.bound) (events : List (Event ℚ)) :
    (BranchAndBound.record s node rest events visit).IsSound t integer incumbent := by
  have hnode : node.revision.Narrows t := hs.narrows node (hstack ▸ List.mem_cons_self)
  have hrest : ∀ other ∈ rest, other.revision.Narrows t :=
    fun other hother => hs.narrows other (hstack ▸ List.mem_cons_of_mem _ hother)
  cases visit with
  | infeasible =>
    exact ⟨hrest, hs.bound_eq, hs.attained, hs.improves, fun _ =>
      hs.covers_rest hstack hlen (fun _ h => h) fun y hy => absurd hy (hvisit y)⟩
  | pruned =>
    obtain ⟨b, hb, hle⟩ := hvisit
    exact ⟨hrest, hs.bound_eq, hs.attained, hs.improves, fun _ =>
      hs.covers_rest hstack hlen (fun _ h => h) fun y hy => ⟨b, hb, hle y hy⟩⟩
  | integral objective assignment tableau =>
    obtain ⟨hbound, hle, y, hy, hintegral, hvalue, hperm⟩ := hvisit
    refine ⟨hrest, rfl, ?_, ?_, fun _ => hs.covers_rest hstack hlen ?_ fun y hy =>
      ⟨objective, rfl, hle y hy⟩⟩
    · intro best hbest
      cases hbest
      refine ⟨y, hnode.isFeasible y hy, hintegral, ?_, ?_⟩
      · rw [← hnode.valueAt_eq, hvalue]
      · rwa [← hnode.namedValues_eq]
    · intro best hbest
      cases hbest
      exact hs.lt_of_bound hbound
    · intro v hv b hb
      exact (hbound b hb).trans (hv objective rfl)
  | split lower upper =>
    obtain ⟨hlower, hupper, hkeep⟩ := hvisit
    refine ⟨?_, hs.bound_eq, hs.attained, hs.improves, fun y hy hintegral hbetter => ?_⟩
    · intro other hother
      rcases List.mem_cons.1 hother with rfl | hother
      · exact hlower.trans hnode rfl
      rcases List.mem_cons.1 hother with rfl | hother
      · exact hupper.trans hnode rfl
      · exact hrest other hother
    · -- what the node kept is kept by one of its halves
      rcases hs.covers_cons hstack hlen hy hintegral hbetter with
        ⟨y', hy', hintegral', -, hagree⟩ | ⟨other, hother, hkeeps⟩
      · obtain ⟨r, hr, y'', hy'', hagree'⟩ := hkeep y' hy' hintegral'
        have hkeeps : r.tableau.Keeps t y := by
          refine ⟨y'', hy'', fun j hj => ?_⟩
          rw [hagree' j (hj.trans_le hnode.width_le), hagree j hj]
        rcases hr with rfl | rfl
        · exact ⟨_, List.mem_cons_self, hkeeps⟩
        · exact ⟨_, List.mem_cons_of_mem _ List.mem_cons_self, hkeeps⟩
      · exact ⟨other, List.mem_cons_of_mem _ (List.mem_cons_of_mem _ hother), hkeeps⟩

/-- When no node is left, no point with the required whole values is better than the bound. -/
theorem le_bound (hstack : s.stack = []) {y : ℕ → ℚ} (hy : t.IsFeasible y)
    (hintegral : IsIntegral integer y) : ∃ b ∈ s.bound, t.valueAt y ≤ b := by
  by_contra hbetter
  push Not at hbetter
  obtain ⟨node, hnode, -⟩ := hs.covers y hy hintegral hbetter
  rw [hstack] at hnode
  cases hnode

end IsSound

end Search

/-- Two products that are made in whole units and share two resources. -/
def Tableau.wholeUnits : Tableau ℚ where
  rows := [[1, 1, 1, 0], [10, 6, 0, 1]]
  rhs := [5, 45]
  costs := [5, 4, 0, 0]
  names := ["x", "y", "s1", "s2"]
  basis := ["s1", "s2"]

namespace BranchAndBound

variable {t : Tableau ℚ} {integer : List Bool}

/-- The outcome of a search is right about the points that have the required whole values. -/
structure IsRight (t : Tableau ℚ) (integer : List Bool) (incumbent : Option ℚ)
    (outcome : Outcome (IntegerSolution ℚ)) : Prop where
  ok : ∀ solution, outcome = .ok solution → solution.IsAttained t integer ∧
    (∀ i ∈ incumbent, i < solution.objective) ∧
      ∀ y, t.IsFeasible y → IsIntegral integer y → t.valueAt y ≤ solution.objective
  none : outcome = Outcome.refuse .noIntegerSolution →
    ∀ y, t.IsFeasible y → IsIntegral integer y → ∃ i ∈ incumbent, t.valueAt y ≤ i

theorem isRight_of_refuse {incumbent : Option ℚ} {cause : Refusal}
    (hcause : cause ≠ .noIntegerSolution) : IsRight t integer incumbent (Outcome.refuse cause) where
  ok := fun _ h => by cases h
  none := fun h => absurd (Failure.refused.inj (Except.error.inj h)) hcause

/-- A visit keeps a search sound. -/
theorem Steps.isSound {b : BranchAndBound ℚ} {s s' : Search ℚ} (h : b.Steps integer s s')
    (hlen : integer.length = t.structural) (hs : s.IsSound t integer b.incumbent) :
    s'.IsSound t integer b.incumbent := by
  obtain ⟨node, rest, visit, hstack, hvisit, rfl⟩ := h
  have hnode := hs.narrows node (hstack ▸ List.mem_cons_self)
  exact hs.record hstack hlen (isRight_of_visit hnode hlen hvisit) _

/-- A sound search that comes to an end has the right outcome. -/
theorem EndsWith.isRight {b : BranchAndBound ℚ} {s : Search ℚ} {limit : Nat}
    {outcome : Outcome (IntegerSolution ℚ)} (h : b.EndsWith integer limit s outcome)
    (hlen : integer.length = t.structural) (hs : s.IsSound t integer b.incumbent) :
    IsRight t integer b.incumbent outcome := by
  have hbound := hs.bound_eq
  cases h with
  | @found best hstack hbest =>
    refine ⟨fun solution h => ?_, fun h => by cases h⟩
    cases h
    refine ⟨hs.attained best hbest, hs.improves best hbest, fun y hy hintegral => ?_⟩
    obtain ⟨v, hv, hle⟩ := hs.le_bound hstack hy hintegral
    rw [hbound, hbest] at hv
    cases hv
    exact hle
  | exhausted hstack hbest =>
    refine ⟨fun _ h => (by cases h), fun _ y hy hintegral => ?_⟩
    have hle := hs.le_bound hstack hy hintegral
    rw [hbound, hbest] at hle
    exact hle
  | limited => exact isRight_of_refuse (by simp)
  | failed hstack hvisit =>
    have hnode := hs.narrows _ (hstack ▸ List.mem_cons_self)
    have hready := hnode.isReady
    rw [← hlen] at hready
    rcases b.visit_of_isReady hready s.bound (s.visited + 1) with ⟨visit, hok, -⟩ | hfails
    · rw [hvisit] at hok
      cases hok
    · rw [hvisit] at hfails
      cases hfails with
      | limited => exact isRight_of_refuse (by simp)
      | unbounded name => exact isRight_of_refuse (by simp)

/-- A search that is sound at its beginning has the right outcome. -/
theorem isRight_explore (b : BranchAndBound ℚ) (hlen : integer.length = t.structural)
    (remaining : Nat) {s : Search ℚ} (hs : s.IsSound t integer b.incumbent) :
    IsRight t integer b.incumbent (b.explore integer remaining s).outcome := by
  obtain ⟨s', hreaches, hends⟩ := b.explore_spec integer remaining s
  exact hends.isRight hlen
    (invariant_of_reflTransGen (fun _ _ hstep => hstep.isSound hlen) hreaches hs)

/-- If a search ends with a solution, the assignment is that of a feasible point of the tableau
which has whole values where they are required; its value is the objective and exceeds the
incumbent, and no feasible point with the required whole values has a larger one. If a search ends
without a solution, no such point has a value above the incumbent. -/
theorem solve_integer (b : BranchAndBound ℚ) (ht : t.IsCanonical)
    (hid : t.rows.HasIdentityAt t.structural) (hlen : integer.length = t.structural) :
    (∀ solution, (b.solve t integer).outcome = .ok solution →
        (∃ y, t.IsFeasible y ∧ IsIntegral integer y ∧ t.valueAt y = solution.objective ∧
          solution.assignment.Perm (t.namedValues y)) ∧
        (∀ i ∈ b.incumbent, i < solution.objective) ∧
        ∀ y, t.IsFeasible y → IsIntegral integer y → t.valueAt y ≤ solution.objective) ∧
      ((b.solve t integer).outcome = Outcome.refuse .noIntegerSolution →
        ∀ y, t.IsFeasible y → IsIntegral integer y → ∃ i ∈ b.incumbent, t.valueAt y ≤ i) := by
  have hexplore : (b.solve t integer).outcome =
      (b.explore integer b.maxNodes (b.start t)).outcome := by
    rw [solve, Recorded.outcome_andThen, Recorded.outcome_quiet,
      Tableau.validate_eq_ok.2 ht.toIsValid, Outcome.ok_bind, Recorded.outcome_andThen,
      Recorded.outcome_quiet, (Dimension.check_eq_ok (u := ())).2 hlen.symm, Outcome.ok_bind]
  rw [hexplore]
  have hright := b.isRight_explore hlen b.maxNodes (Search.isSound_start b ht hid)
  exact ⟨hright.ok, hright.none⟩

/-- The best profit in whole units is 23, which takes several splits. It is found if less is known
before, and nothing is found if it is known already. -/
theorem solve_integer_wholeUnits :
    Tableau.wholeUnits.IsCanonical ∧
      Tableau.wholeUnits.rows.HasIdentityAt Tableau.wholeUnits.structural ∧
      (∃ solution, (({ incumbent := some 20 } : BranchAndBound ℚ).solve .wholeUnits
          [true, true]).outcome = .ok solution ∧ solution.objective = 23 ∧ solution.nodes = 9 ∧
        (∃ y, Tableau.wholeUnits.IsFeasible y ∧ IsIntegral [true, true] y ∧
          Tableau.wholeUnits.valueAt y = 23 ∧
          solution.assignment.Perm (Tableau.wholeUnits.namedValues y)) ∧
        ∀ y, Tableau.wholeUnits.IsFeasible y → IsIntegral [true, true] y →
          Tableau.wholeUnits.valueAt y ≤ 23) ∧
      (({ incumbent := some 23 } : BranchAndBound ℚ).solve .wholeUnits [true, true]).outcome =
        Outcome.refuse .noIntegerSolution ∧
      ∀ y, Tableau.wholeUnits.IsFeasible y → IsIntegral [true, true] y →
        ∃ i ∈ some (23 : ℚ), Tableau.wholeUnits.valueAt y ≤ i := by
  have hcanonical : Tableau.wholeUnits.IsCanonical := by decide +kernel
  have hid : Tableau.wholeUnits.rows.HasIdentityAt Tableau.wholeUnits.structural := by
    decide +kernel
  have hfound : (fun solution => (solution.objective, solution.nodes)) <$>
      (({ incumbent := some 20 } : BranchAndBound ℚ).solve .wholeUnits [true, true]).outcome =
        .ok (23, 9) := by
    decide +kernel
  have hnone : (({ incumbent := some 23 } : BranchAndBound ℚ).solve .wholeUnits
      [true, true]).outcome = Outcome.refuse .noIntegerSolution := by
    decide +kernel
  obtain ⟨solution, h, hsolution⟩ := Outcome.map_eq_ok.1 hfound
  obtain ⟨hobjective, hnodes⟩ := Prod.mk.inj hsolution
  obtain ⟨hattained, -, hle⟩ := (solve_integer _ hcanonical hid rfl).1 solution h
  rw [hobjective] at hattained hle
  exact ⟨hcanonical, hid, ⟨solution, h, hobjective, hnodes, hattained, hle⟩, hnone,
    (solve_integer _ hcanonical hid rfl).2 hnone⟩

end BranchAndBound

end LinProg
