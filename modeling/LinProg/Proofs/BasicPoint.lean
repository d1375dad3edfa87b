import LinProg.Proofs.ReducedCosts
import LinProg.Proofs.Solution

/-!
# The basic solution as a point

In exact arithmetic the basic solution of a canonical tableau is a point that satisfies its rows,
and the objective of the tableau is its cost. The reduced costs measure how much every other point
costs less. From this come the certificates on which the verdicts rest: no negative reduced cost
shows that the basic solution is optimal, a column that limits nothing is a direction without end,
and a row with a negative right-hand side and no negative entry has no feasible point.
-/

namespace LinProg

namespace Tableau

/-- The point that has the given value at the basic variable of each row and is zero elsewhere. -/
def atBasis (t : Tableau ℚ) (x : ℕ → ℚ) (j : Nat) : ℚ :=
  ∑ i ∈ Finset.range t.height, if t.basicColumn i = j then x i else 0

/-- The values of the basic solution. -/
def basicPoint (t : Tableau ℚ) : ℕ → ℚ := t.atBasis t.rhsAt

/-- The direction in which the variable of a column grows by one and the basic variables make up for
it. -/
def ray (t : Tableau ℚ) (column j : Nat) : ℚ :=
  (if j = column then 1 else 0) - t.atBasis (fun i => t.rows.entry i column) j

variable {t : Tableau ℚ}

/-- A sum over the columns of a point that is zero outside the basis is a sum over the rows. -/
theorem IsWellFormed.sum_atBasis (ht : t.IsWellFormed) (f x : ℕ → ℚ) :
    ∑ j ∈ Finset.range t.width, f j * t.atBasis x j =
      ∑ i ∈ Finset.range t.height, f (t.basicColumn i) * x i := by
  simp only [atBasis, Finset.mul_sum]
  rw [Finset.sum_comm]
  refine Finset.sum_congr rfl fun i hi => ?_
  have hcolumn := ht.basicColumn_lt (Finset.mem_range.1 hi)
  simp only [mul_ite, mul_zero, Finset.sum_ite_eq, Finset.mem_range, if_pos hcolumn]

theorem IsCanonical.atBasis_basicColumn (ht : t.IsCanonical) (x : ℕ → ℚ) {i : Nat}
    (hi : i < t.height) : t.atBasis x (t.basicColumn i) = x i := by
  rw [atBasis, Finset.sum_eq_single_of_mem i (Finset.mem_range.2 hi), if_pos rfl]
  intro k hk hki
  rw [if_neg]
  exact fun h => hki (ht.basicColumn_inj (Finset.mem_range.1 hk) hi h)

theorem atBasis_of_ne {x : ℕ → ℚ} {j : Nat} (h : ∀ i < t.height, t.basicColumn i ≠ j) :
    t.atBasis x j = 0 :=
  Finset.sum_eq_zero fun i hi => if_neg (h i (Finset.mem_range.1 hi))

theorem atBasis_nonneg {x : ℕ → ℚ} (h : ∀ i < t.height, 0 ≤ x i) (j : Nat) : 0 ≤ t.atBasis x j := by
  refine Finset.sum_nonneg fun i hi => ?_
  split
  · exact h i (Finset.mem_range.1 hi)
  · exact le_rfl

/-- Each row of a canonical tableau sums up to the value of its basic variable. -/
theorem IsCanonical.row_atBasis (ht : t.IsCanonical) (x : ℕ → ℚ) {i : Nat} (hi : i < t.height) :
    ∑ j ∈ Finset.range t.width, t.rows.entry i j * t.atBasis x j = x i := by
  rw [ht.sum_atBasis, Finset.sum_eq_single_of_mem i (Finset.mem_range.2 hi)]
  · rw [ht.entry_basicColumn hi hi, if_pos rfl, one_mul]
  · intro k hk hki
    rw [ht.entry_basicColumn (Finset.mem_range.1 hk) hi, if_neg (Ne.symm hki), zero_mul]

/-! ### The basic solution -/

theorem IsCanonical.solves_basicPoint (ht : t.IsCanonical) : t.Solves 1 t.basicPoint := by
  intro i hi
  rw [one_mul]
  exact ht.row_atBasis _ hi

theorem IsWellFormed.valueAt_basicPoint (ht : t.IsWellFormed) :
    t.valueAt t.basicPoint = t.basicObjective :=
  ht.sum_atBasis _ _

/-- If no right-hand side is negative, the basic solution is feasible. -/
theorem IsCanonical.isFeasible_basicPoint (ht : t.IsCanonical)
    (hrhs : ∀ i < t.height, 0 ≤ t.rhsAt i) : t.IsFeasible t.basicPoint :=
  isFeasible_iff.2 ⟨fun j _ => atBasis_nonneg hrhs j, ht.solves_basicPoint⟩

/-- The value of a variable in the basic solution is the value of its column at the basic point. -/
theorem IsCanonical.basicPoint_eq (ht : t.IsCanonical) {j : Nat} {name : String}
    (hname : t.names[j]? = some name) : t.basicPoint j = t.rhs.getD (t.basis.idxOf name) 0 := by
  have hj : j < t.width := (List.getElem?_eq_some_iff.1 hname).1
  by_cases hbasic : name ∈ t.basis
  · have hrow : t.basis.idxOf name < t.basis.length := List.idxOf_lt_length_of_mem hbasic
    have hi : t.basis.idxOf name < t.height := ht.length_basis ▸ hrow
    have hcolumn : t.basicColumn (t.basis.idxOf name) = j := by
      rw [ht.basicColumn_eq_iff hi hj, hname, List.getElem?_eq_getElem hrow, List.getElem_idxOf]
    rw [basicPoint, ← hcolumn]
    exact ht.atBasis_basicColumn _ hi
  · have hrow : t.rhs.length ≤ t.basis.idxOf name := by
      rw [ht.length_rhs, ← ht.length_basis, List.idxOf_eq_length hbasic]
    rw [List.getD_eq_default _ _ hrow]
    refine atBasis_of_ne fun i hi hij => hbasic ?_
    rw [ht.basicColumn_eq_iff hi hj, hname] at hij
    exact List.mem_of_getElem? hij

/-- The values that are read off a canonical tableau are those of the basic point. -/
theorem IsCanonical.values_eq (ht : t.IsCanonical) :
    t.values = .ok (t.names.zipIdx.map fun (name, j) => (name, t.basicPoint j)) := by
  rw [values_eq_ok ht.toIsValid, Except.ok.injEq]
  refine List.ext_getElem? fun j => ?_
  rw [List.getElem?_map, List.getElem?_map, List.getElem?_zipIdx, zero_add]
  cases hname : t.names[j]? with
  | none => rfl
  | some name => simp only [Option.map_some, ht.basicPoint_eq hname]

/-! ### Certificates -/

/-- The cost of a point is the objective of the basic solution less the reduced costs of its
values. -/
theorem Solves.valueAt_eq {u : ℚ} {y : ℕ → ℚ} (hy : t.Solves u y) :
    t.valueAt y = u * t.basicObjective - ∑ j ∈ Finset.range t.width, t.reducedAt j * y j := by
  have himputed : ∑ j ∈ Finset.range t.width, (∑ i ∈ Finset.range t.height,
      t.costAt (t.basicColumn i) * t.rows.entry i j) * y j = u * t.basicObjective := by
    calc ∑ j ∈ Finset.range t.width, (∑ i ∈ Finset.range t.height,
            t.costAt (t.basicColumn i) * t.rows.entry i j) * y j
        = ∑ i ∈ Finset.range t.height, t.costAt (t.basicColumn i) *
            ∑ j ∈ Finset.range t.width, t.rows.entry i j * y j := by
          simp only [Finset.sum_mul, Finset.mul_sum]
          rw [Finset.sum_comm]
          exact Finset.sum_congr rfl fun i _ => Finset.sum_congr rfl fun j _ => by ring
      _ = ∑ i ∈ Finset.range t.height, t.costAt (t.basicColumn i) * (u * t.rhsAt i) :=
          Finset.sum_congr rfl fun i hi => by rw [hy i (Finset.mem_range.1 hi)]
      _ = u * t.basicObjective := by
          rw [basicObjective, Finset.mul_sum]
          exact Finset.sum_congr rfl fun i _ => by ring
  simp only [reducedAt, sub_mul, Finset.sum_sub_distrib]
  rw [himputed, valueAt]
  ring

/-- If no reduced cost is negative, no feasible point costs more than the basic solution. -/
theorem IsFeasible.valueAt_le {y : ℕ → ℚ} (hy : t.IsFeasible y)
    (hreduced : ∀ j < t.width, 0 ≤ t.reducedAt j) : t.valueAt y ≤ t.basicObjective := by
  have hsum : 0 ≤ ∑ j ∈ Finset.range t.width, t.reducedAt j * y j := by
    refine Finset.sum_nonneg fun j hj => ?_
    exact mul_nonneg (hreduced j (Finset.mem_range.1 hj)) (hy.nonneg j (Finset.mem_range.1 hj))
  have hvalue := (isFeasible_iff.1 hy).2.valueAt_eq
  linarith

/-- Basic variables have no reduced cost. -/
theorem IsCanonical.reducedAt_basicColumn (ht : t.IsCanonical) {i : Nat} (hi : i < t.height) :
    t.reducedAt (t.basicColumn i) = 0 := by
  rw [reducedAt, Finset.sum_eq_single_of_mem i (Finset.mem_range.2 hi)]
  · rw [ht.entry_basicColumn hi hi, if_pos rfl, mul_one, sub_self]
  · intro k hk hki
    rw [ht.entry_basicColumn hi (Finset.mem_range.1 hk), if_neg hki, mul_zero]

theorem IsCanonical.solves_ray (ht : t.IsCanonical) {column : Nat} (hcolumn : column < t.width) :
    t.Solves 0 (t.ray column) := by
  intro i hi
  have hunit : ∑ j ∈ Finset.range t.width, t.rows.entry i j * (if j = column then 1 else 0) =
      t.rows.entry i column := by
    simp only [mul_ite, mul_one, mul_zero, Finset.sum_ite_eq', Finset.mem_range, if_pos hcolumn]
  simp only [ray, mul_sub, Finset.sum_sub_distrib]
  rw [hunit, ht.row_atBasis _ hi, sub_self, zero_mul]

/-- Along the ray of a column the cost changes by the reduced cost of the column. -/
theorem IsCanonical.valueAt_ray (ht : t.IsCanonical) {column : Nat} (hcolumn : column < t.width) :
    t.valueAt (t.ray column) = -t.reducedAt column := by
  have hbasis : ∑ j ∈ Finset.range t.width,
      t.reducedAt j * t.atBasis (fun i => t.rows.entry i column) j = 0 := by
    rw [ht.sum_atBasis]
    refine Finset.sum_eq_zero fun i hi => ?_
    rw [ht.reducedAt_basicColumn (Finset.mem_range.1 hi), zero_mul]
  have hunit : ∑ j ∈ Finset.range t.width, t.reducedAt j * (if j = column then 1 else 0) =
      t.reducedAt column := by
    simp only [mul_ite, mul_one, mul_zero, Finset.sum_ite_eq', Finset.mem_range, if_pos hcolumn]
  rw [(ht.solves_ray hcolumn).valueAt_eq]
  simp only [ray, mul_sub, Finset.sum_sub_distrib]
  rw [hunit, hbasis, zero_mul, sub_zero, zero_sub]

theorem ray_ge {column : Nat} (h : ∀ i < t.height, t.rows.entry i column ≤ 0) (j : Nat) :
    (if j = column then 1 else 0) ≤ t.ray column j := by
  have hsum : t.atBasis (fun i => t.rows.entry i column) j ≤ 0 := by
    refine Finset.sum_nonpos fun i hi => ?_
    split
    · exact h i (Finset.mem_range.1 hi)
    · exact le_rfl
  rw [ray]
  linarith

/-- A column of negative reduced cost that limits nothing lets the cost and its variable grow beyond
every bound. -/
theorem IsCanonical.exists_feasible_gt (ht : t.IsCanonical) (hrhs : ∀ i < t.height, 0 ≤ t.rhsAt i)
    {column : Nat} (hcolumn : column < t.width) (hreduced : t.reducedAt column < 0)
    (hentries : ∀ i < t.height, t.rows.entry i column ≤ 0) (M N : ℚ) :
    ∃ y, t.IsFeasible y ∧ M < t.valueAt y ∧ N < y column := by
  have hbasic := ht.isFeasible_basicPoint hrhs
  -- one step length serves both bounds
  obtain ⟨θ, hθ, hθM, hθN⟩ : ∃ θ : ℚ, 0 ≤ θ ∧ (M - t.basicObjective) / -t.reducedAt column < θ ∧
      N < θ := by
    refine ⟨max 0 (max ((M - t.basicObjective) / -t.reducedAt column) N) + 1, ?_, ?_, ?_⟩
    · exact add_nonneg (le_max_left _ _) zero_le_one
    · exact lt_add_of_le_of_pos ((le_max_left _ _).trans (le_max_right _ _)) one_pos
    · exact lt_add_of_le_of_pos ((le_max_right _ _).trans (le_max_right _ _)) one_pos
  have hray := ray_ge hentries
  refine ⟨fun j => t.basicPoint j + θ * t.ray column j,
    isFeasible_iff.2 ⟨fun j hj => ?_, ?_⟩, ?_, ?_⟩
  · have hnonneg : 0 ≤ t.ray column j := by
      refine le_trans ?_ (hray j)
      split
      · exact zero_le_one
      · exact le_rfl
    exact add_nonneg (hbasic.nonneg j hj) (mul_nonneg hθ hnonneg)
  · have hsolves := ht.solves_basicPoint.add_smul (ht.solves_ray hcolumn) θ
    rwa [mul_zero, add_zero] at hsolves
  · rw [valueAt_add_smul, ht.valueAt_basicPoint, ht.valueAt_ray hcolumn]
    rw [div_lt_iff₀ (neg_pos.2 hreduced)] at hθM
    linarith
  · have hone := hray column
    rw [if_pos rfl] at hone
    have hstep : θ ≤ θ * t.ray column column := le_mul_of_one_le_right hθ hone
    have hstart := hbasic.nonneg column hcolumn
    linarith

/-- A row with no negative entry cannot sum up to a negative right-hand side. -/
theorem not_isFeasible_of_row {i : Nat} (hi : i < t.height) (hrhs : t.rhsAt i < 0)
    (hentries : ∀ j < t.width, 0 ≤ t.rows.entry i j) (y : ℕ → ℚ) : ¬ t.IsFeasible y := by
  intro hy
  have hsum : 0 ≤ ∑ j ∈ Finset.range t.width, t.rows.entry i j * y j := by
    refine Finset.sum_nonneg fun j hj => ?_
    exact mul_nonneg (hentries j (Finset.mem_range.1 hj)) (hy.nonneg j (Finset.mem_range.1 hj))
  rw [hy.row_eq i hi] at hsum
  exact absurd hrhs (not_lt.2 hsum)

end Tableau

end LinProg
