import LinProg.Proofs.Points
import LinProg.ReducedCosts

/-!
# Reduced costs as sums

The reduced costs of a well-formed tableau can be computed, one for each column. In exact arithmetic
they are the sums of the entries of a column, each weighted with the cost of the basic variable of
its row, less the cost of the column; and the objective is the same sum over the right-hand sides.
-/

namespace LinProg

namespace ReducedCosts

variable {α : Type} [Arithmetic α] {t : Tableau α}

/-- The reduced costs of a well-formed tableau, written out. -/
theorem compute_eq_ok (ht : t.IsWellFormed) :
    let basic := t.basis.map fun name => t.costs.getD (t.names.idxOf name) 0
    let imputed := Rows.combine (t.width + 1) basic
      (List.zipWith (fun row value => row ++ [value]) t.rows t.rhs)
    compute t = .ok { basic, imputed, reduced := List.zipWith (· - ·) imputed t.costs } := by
  have hbasis : Dimension.basisLength.check t.height t.basis.length = .ok () :=
    Dimension.check_eq_ok.2 ht.length_basis.symm
  have hwidths : t.rows.checkWidths .matrixColumns t.costs.length = .ok () := by
    rw [Rows.checkWidths_eq_ok, ht.length_costs]
    exact ht.length_row
  have hbasic : (t.basis.map t.names.idxOf).mapM (fun j => Outcome.inRange t.costs[j]?) =
      .ok (t.basis.map fun name => t.costs.getD (t.names.idxOf name) 0) := by
    rw [Outcome.mapM_eq_ok_map (P := fun j => j < t.costs.length) (g := fun j => t.costs.getD j 0)]
    · refine ⟨?_, by rw [List.map_map]; rfl⟩
      rw [List.forall_mem_map]
      intro name hname
      rw [ht.length_costs]
      exact List.idxOf_lt_length_of_mem (ht.basis_subset name hname)
    · intro j cost
      rw [Outcome.inRange_eq_ok, List.getElem?_eq_some_iff]
      constructor
      · rintro ⟨hj, rfl⟩
        exact ⟨hj, (List.getD_eq_getElem _ _ hj).symm⟩
      · rintro ⟨hj, rfl⟩
        exact ⟨hj, (List.getD_eq_getElem _ _ hj).symm⟩
  have hrhs : Outcome.within (decide (t.height ≤ t.rhs.length)) = .ok () := by
    rw [Outcome.within_eq_ok, ht.length_rhs]
    exact decide_eq_true le_rfl
  intro basic imputed
  rw [compute, hbasis, Outcome.ok_bind, hwidths, Outcome.ok_bind, ht.basicColumns_eq,
    Outcome.ok_bind, hbasic, Outcome.ok_bind, hrhs, Outcome.ok_bind, ht.length_costs]
  rfl

omit [Arithmetic α] in
/-- The rows with their right-hand sides behind them form a matrix with one more column. -/
theorem hasShape_extended (ht : t.IsValid) :
    Rows.HasShape (List.zipWith (fun row value => row ++ [value]) t.rows t.rhs) t.height
      (t.width + 1) where
  length_eq := by
    rw [List.length_zipWith, ht.length_rhs]
    exact min_self _
  length_row := by
    intro row hrow
    obtain ⟨i, hi, rfl⟩ := List.getElem_of_mem hrow
    rw [List.getElem_zipWith, List.length_append, ht.length_row _ (List.getElem_mem _)]
    rfl

/-- A well-formed tableau has reduced costs, one for each column. -/
theorem exists_compute_eq_ok (ht : t.IsWellFormed) :
    ∃ costs, compute t = .ok costs ∧ costs.reduced.length = t.width := by
  refine ⟨_, compute_eq_ok ht, ?_⟩
  rw [List.length_zipWith, (hasShape_extended ht.toIsValid).length_combine, ht.length_costs]
  exact min_eq_right (Nat.le_succ _)

theorem length_reduced (ht : t.IsWellFormed) {costs : ReducedCosts α} (h : compute t = .ok costs) :
    costs.reduced.length = t.width := by
  obtain ⟨costs', h', hlen⟩ := exists_compute_eq_ok ht
  rw [h, Except.ok.injEq] at h'
  rw [h', hlen]

omit [Arithmetic α] in
/-- An entry of the rows with their right-hand sides behind them. -/
theorem entry_extended [Zero α] (ht : t.IsValid) {i : Nat} (hi : i < t.height) (j : Nat) :
    Rows.entry (List.zipWith (fun row value => row ++ [value]) t.rows t.rhs) i j =
      if j = t.width then t.rhs.getD i 0 else t.rows.entry i j := by
  obtain ⟨row, hrow, hlen⟩ := ht.hasShape.exists_row hi
  obtain ⟨value, hvalue⟩ : ∃ value, t.rhs[i]? = some value :=
    ⟨_, List.getElem?_eq_getElem (ht.length_rhs.symm ▸ hi)⟩
  have hextended : (List.zipWith (fun row value => row ++ [value]) t.rows t.rhs)[i]? =
      some (row ++ [value]) := by
    rw [List.getElem?_zipWith, hrow, hvalue]
  rw [Rows.entry_of_getElem? hextended, Rows.entry_of_getElem? hrow,
    List.getD_eq_getElem?_getD, List.getElem?_append, hlen, List.getD_eq_getElem?_getD, hvalue,
    List.getD_eq_getElem?_getD]
  rcases lt_trichotomy j t.width with hj | rfl | hj
  · rw [if_pos hj, if_neg hj.ne]
  · simp
  · have hnone : [value][j - t.width]? = none := List.getElem?_eq_none (by simp; omega)
    rw [if_neg (not_lt.2 hj.le), if_neg hj.ne', hnone, List.getElem?_eq_none (hlen.trans_le hj.le)]

/-- The reduced cost of a column is the sum of its entries, added up from the first row on, less the
cost of the column. -/
theorem getElem?_reduced_eq_foldl (ht : t.IsWellFormed) {costs : ReducedCosts α}
    (h : compute t = .ok costs) {j : Nat} (hj : j < t.width) :
    costs.reduced[j]? = some ((List.range t.height).foldl
      (fun s k => s + t.costs.getD (t.basicColumn k) 0 * t.rows.entry k j) 0 -
        t.costs.getD j 0) := by
  have hshape := hasShape_extended ht.toIsValid
  rw [compute_eq_ok ht, Except.ok.injEq] at h
  subst h
  have hbasic : (t.basis.map fun name => t.costs.getD (t.names.idxOf name) 0).length =
      t.height := by
    rw [List.length_map, ht.length_basis]
  have hcost : j < t.costs.length := ht.length_costs.symm ▸ hj
  have himputed := hshape.getD_combine_eq_foldl_range hbasic (Nat.lt_succ_of_lt hj)
  rw [List.foldl_ext _ (fun s k => s + t.costs.getD (t.basicColumn k) 0 * t.rows.entry k j) _ fun
    s k hk => ?_] at himputed
  · have hlen := hshape.length_combine (t.basis.map fun name => t.costs.getD (t.names.idxOf name) 0)
    rw [List.getD_eq_getElem _ _ (hlen.symm ▸ Nat.lt_succ_of_lt hj)] at himputed
    rw [List.getElem?_zipWith,
      List.getElem?_eq_getElem (hlen.symm ▸ Nat.lt_succ_of_lt hj), himputed,
      List.getElem?_eq_getElem hcost, List.getD_eq_getElem _ _ hcost]
  · have hk := List.mem_range.1 hk
    have hk' : k < t.basis.length := ht.length_basis.symm ▸ hk
    rw [entry_extended ht.toIsValid hk, if_neg hj.ne, List.getD_eq_getElem _ _ (hbasic.symm ▸ hk),
      List.getElem_map, Tableau.basicColumn, List.getD_eq_getElem _ "" hk']

/-- The reduced costs of the basic columns of a canonical tableau with finite costs are exactly
zero. -/
theorem reduced_basicColumn_beq {α : Type} [Scalar α] [LawfulUnits α] {t : Tableau α}
    (ht : t.IsCanonical) (hfinite : ∀ c ∈ t.costs, Arithmetic.isFinite c = true)
    {costs : ReducedCosts α} (h : compute t = .ok costs) {i : Nat} (hi : i < t.height) :
    ∃ v, costs.reduced[t.basicColumn i]? = some v ∧ (v == 0) = true := by
  refine ⟨_, getElem?_reduced_eq_foldl ht.toIsWellFormed h (ht.basicColumn_lt hi), ?_⟩
  have hcost : ∀ k < t.height, Arithmetic.isFinite (t.costs.getD (t.basicColumn k) 0) = true := by
    intro k hk
    have hcolumn : t.basicColumn k < t.costs.length := ht.length_costs.symm ▸ ht.basicColumn_lt hk
    rw [List.getD_eq_getElem _ _ hcolumn]
    exact hfinite _ (List.getElem_mem _)
  exact LawfulUnits.sub_self (hcost i hi) (LawfulUnits.foldl_beq_of_unit hi hcost
    (ht.one_basicColumn hi) fun k hk hki => ht.zero_basicColumn hi hk hki)

end ReducedCosts

/-! ### Exact arithmetic -/

namespace Tableau

/-- The reduced cost of a column. -/
def reducedAt (t : Tableau ℚ) (j : Nat) : ℚ :=
  ∑ i ∈ Finset.range t.height, t.costAt (t.basicColumn i) * t.rows.entry i j - t.costAt j

/-- The objective of the basic solution. -/
def basicObjective (t : Tableau ℚ) : ℚ :=
  ∑ i ∈ Finset.range t.height, t.costAt (t.basicColumn i) * t.rhsAt i

end Tableau

namespace ReducedCosts

variable {t : Tableau ℚ} {costs : ReducedCosts ℚ}

/-- The sums weighted with the costs of the basic variables. -/
theorem getD_imputed (ht : t.IsWellFormed) (h : compute t = .ok costs) {j : Nat}
    (hj : j ≤ t.width) :
    costs.imputed.getD j 0 = ∑ i ∈ Finset.range t.height, t.costAt (t.basicColumn i) *
      if j = t.width then t.rhsAt i else t.rows.entry i j := by
  rw [compute_eq_ok ht] at h
  cases h
  have hshape := hasShape_extended ht.toIsValid
  rw [hshape.getD_combine _ (Nat.lt_succ_of_le hj), List.length_map, ht.length_basis]
  refine Finset.sum_congr rfl fun i hi => ?_
  have hi' := Finset.mem_range.1 hi
  have hbasis : i < t.basis.length := ht.length_basis ▸ hi'
  rw [entry_extended ht.toIsValid hi']
  congr 1
  rw [List.getD_eq_getElem?_getD, List.getElem?_map, List.getElem?_eq_getElem hbasis,
    Tableau.basicColumn, List.getD_eq_getElem _ _ hbasis]
  rfl

theorem length_imputed (ht : t.IsWellFormed) (h : compute t = .ok costs) :
    costs.imputed.length = t.width + 1 := by
  rw [compute_eq_ok ht] at h
  cases h
  exact (hasShape_extended ht.toIsValid).length_combine _

/-- The computed reduced costs are the weighted sums less the costs. -/
theorem getElem?_reduced (ht : t.IsWellFormed) (h : compute t = .ok costs) {j : Nat}
    (hj : j < t.width) : costs.reduced[j]? = some (t.reducedAt j) := by
  have himputed := getD_imputed ht h hj.le
  have hlen := length_imputed ht h
  have hreduced : costs.reduced = List.zipWith (· - ·) costs.imputed t.costs := by
    rw [compute_eq_ok ht] at h
    cases h
    rfl
  simp only [if_neg hj.ne] at himputed
  rw [List.getD_eq_getElem _ _ (by omega)] at himputed
  rw [hreduced, List.getElem?_zipWith, List.getElem?_eq_getElem (by omega),
    List.getElem?_eq_getElem (ht.length_costs.symm ▸ hj), himputed, Tableau.reducedAt,
    Tableau.costAt, List.getD_eq_getElem _ _ (ht.length_costs.symm ▸ hj)]

theorem getElem?_reduced_eq_some (ht : t.IsWellFormed) (h : compute t = .ok costs)
    {j : Nat} {v : ℚ} :
    costs.reduced[j]? = some v ↔ j < t.width ∧ t.reducedAt j = v := by
  constructor
  · intro hv
    have hj : j < t.width := length_reduced ht h ▸ (List.getElem?_eq_some_iff.1 hv).1
    rw [getElem?_reduced ht h hj, Option.some_inj] at hv
    exact ⟨hj, hv⟩
  · rintro ⟨hj, rfl⟩
    exact getElem?_reduced ht h hj

theorem mem_reduced (ht : t.IsWellFormed) (h : compute t = .ok costs) {v : ℚ} :
    v ∈ costs.reduced ↔ ∃ j < t.width, t.reducedAt j = v := by
  simp only [List.mem_iff_getElem?, getElem?_reduced_eq_some ht h]

/-- The computed objective is the objective of the basic solution. -/
theorem objective_eq (ht : t.IsWellFormed) (h : compute t = .ok costs) :
    costs.objective = t.basicObjective := by
  have himputed := getD_imputed ht h le_rfl
  rw [objective, List.getLast?_eq_getElem?, length_imputed ht h, Nat.add_sub_cancel,
    ← List.getD_eq_getElem?_getD, himputed, Tableau.basicObjective]
  exact Finset.sum_congr rfl fun i _ => by rw [if_pos rfl]

end ReducedCosts

end LinProg
