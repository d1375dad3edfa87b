import Mathlib.Order.Interval.Finset.Nat
import LinProg.Proofs.BasicPoint
import LinProg.Proofs.Pivot

/-!
# Two bases of one program

Two canonical tableaux that state the same program differ in their bases only. In exact arithmetic
the rows, the right-hand sides, the reduced costs and the objective of one can be written down from
those of the other by means of its basic columns, so two canonical tableaux with the same basic
columns are the same. A pivot exchanges one basic column, which leaves one term of each of these
sums.
-/

namespace LinProg

namespace Tableau

variable {t t' : Tableau ℚ}

/-- A sum over the columns along the ray of a column. -/
theorem IsWellFormed.sum_ray (ht : t.IsWellFormed) (f : ℕ → ℚ) {column : Nat}
    (hcolumn : column < t.width) :
    ∑ j ∈ Finset.range t.width, f j * t.ray column j =
      f column - ∑ i ∈ Finset.range t.height, f (t.basicColumn i) * t.rows.entry i column := by
  simp only [ray, mul_sub, Finset.sum_sub_distrib]
  rw [ht.sum_atBasis, sub_left_inj]
  simp only [mul_ite, mul_one, mul_zero, Finset.sum_ite_eq', Finset.mem_range, if_pos hcolumn]

namespace SameProgram

variable (h : t.SameProgram t') (ht' : t'.IsCanonical)

include h ht'

/-- Each row is the combination of the rows of the other tableau that its entries in the basic
columns of that tableau ask for. -/
theorem entry_eq {i j : Nat} (hi : i < t.height) (hj : j < t.width) :
    t.rows.entry i j =
      ∑ k ∈ Finset.range t.height, t.rows.entry i (t'.basicColumn k) * t'.rows.entry k j := by
  have hj' : j < t'.width := h.width_eq.symm ▸ hj
  have hrow := (h.solves_iff 0 _).1 (ht'.solves_ray hj') i hi
  rw [← h.width_eq, ht'.sum_ray _ hj', zero_mul, sub_eq_zero, h.height_eq] at hrow
  exact hrow

theorem rhsAt_eq {i : Nat} (hi : i < t.height) :
    t.rhsAt i =
      ∑ k ∈ Finset.range t.height, t.rows.entry i (t'.basicColumn k) * t'.rhsAt k := by
  have hrow := (h.solves_iff 1 _).1 ht'.solves_basicPoint i hi
  rw [← h.width_eq, basicPoint, ht'.sum_atBasis, one_mul, h.height_eq] at hrow
  exact hrow.symm

/-- The reduced costs of the other tableau, from the reduced costs that its basic columns have
here. -/
theorem reducedAt_eq {j : Nat} (hj : j < t.width) :
    t'.reducedAt j = t.reducedAt j -
      ∑ k ∈ Finset.range t.height, t.reducedAt (t'.basicColumn k) * t'.rows.entry k j := by
  have hj' : j < t'.width := h.width_eq.symm ▸ hj
  have hsolves := ht'.solves_ray hj'
  have hvalue := ((h.solves_iff 0 _).1 hsolves).valueAt_eq
  rw [← h.valueAt_eq, ht'.valueAt_ray hj', ← h.width_eq, ht'.sum_ray _ hj', h.height_eq] at hvalue
  linarith

theorem basicObjective_eq :
    t'.basicObjective = t.basicObjective -
      ∑ k ∈ Finset.range t.height, t.reducedAt (t'.basicColumn k) * t'.rhsAt k := by
  have hvalue := ((h.solves_iff 1 _).1 ht'.solves_basicPoint).valueAt_eq
  rw [← h.valueAt_eq, ht'.valueAt_basicPoint, ← h.width_eq, basicPoint, ht'.sum_atBasis,
    h.height_eq] at hvalue
  linarith

/-- Two canonical tableaux of one program with the same basic columns are the same. -/
theorem eq_of_basicColumn (ht : t.IsCanonical)
    (hbasis : ∀ i < t.height, t'.basicColumn i = t.basicColumn i) : t' = t := by
  -- in the basic columns of the other tableau the rows are those of the identity
  have hsum : ∀ (x : ℕ → ℚ), ∀ i < t.height,
      ∑ k ∈ Finset.range t.height, t.rows.entry i (t'.basicColumn k) * x k = x i := by
    intro x i hi
    rw [Finset.sum_eq_single_of_mem i (Finset.mem_range.2 hi)]
    · rw [hbasis i hi, ht.entry_basicColumn hi hi, if_pos rfl, one_mul]
    · intro k hk hki
      have hk := Finset.mem_range.1 hk
      rw [hbasis k hk, ht.entry_basicColumn hk hi, if_neg (Ne.symm hki), zero_mul]
  have hentry : ∀ i < t.height, ∀ j < t.width, t'.rows.entry i j = t.rows.entry i j := by
    intro i hi j hj
    rw [h.entry_eq ht' hi hj, hsum _ i hi]
  have hrhs : ∀ i < t.height, t'.rhsAt i = t.rhsAt i := by
    intro i hi
    rw [h.rhsAt_eq ht' hi, hsum _ i hi]
  have hrows : t'.rows = t.rows := by
    have hshape : t'.rows.HasShape t.height t.width := by
      rw [← h.height_eq, ← h.width_eq]
      exact ht'.hasShape
    exact hshape.ext ht.hasShape hentry
  have hrhs' : t'.rhs = t.rhs := by
    have hlen : t'.rhs.length = t.rhs.length := by
      rw [ht'.length_rhs, h.height_eq, ht.length_rhs]
    refine List.ext_getElem hlen fun i hi hi' => ?_
    have := hrhs i (ht.length_rhs ▸ hi')
    rwa [rhsAt, rhsAt, List.getD_eq_getElem _ _ hi, List.getD_eq_getElem _ _ hi'] at this
  have hbasis' : t'.basis = t.basis := by
    refine List.ext_getElem? fun i => ?_
    rcases lt_or_ge i t.height with hi | hi
    · rw [← ht'.names_basicColumn (h.height_eq.symm ▸ hi), ← ht.names_basicColumn hi, h.names_eq,
        hbasis i hi]
    · rw [List.getElem?_eq_none (ht.length_basis.trans_le hi),
        List.getElem?_eq_none ((ht'.length_basis.trans h.height_eq).trans_le hi)]
  obtain ⟨rows, rhs, costs, names, basis⟩ := t
  obtain ⟨rows', rhs', costs', names', basis'⟩ := t'
  obtain rfl : rows' = rows := hrows
  obtain rfl : rhs' = rhs := hrhs'
  obtain rfl : costs' = costs := h.costs_eq
  obtain rfl : names' = names := h.names_eq
  obtain rfl : basis' = basis := hbasis'
  rfl

end SameProgram

/-- A program has finitely many canonical tableaux, at most one for each choice of basic columns. -/
theorem finite_isCanonical (t : Tableau ℚ) : {t' | t.SameProgram t' ∧ t'.IsCanonical}.Finite := by
  have hcolumns : {g : Fin t.height → ℕ | ∀ i, g i ∈ Set.Iio t.width}.Finite :=
    Set.Finite.pi' fun _ => Set.finite_Iio _
  refine Set.Finite.of_injOn (f := fun t' (i : Fin t.height) => t'.basicColumn i) ?_ ?_ hcolumns
  · rintro t' ⟨hsame, ht'⟩ i
    have hi : (i : ℕ) < t'.height := hsame.height_eq.symm ▸ i.isLt
    exact hsame.width_eq ▸ ht'.basicColumn_lt hi
  · rintro t₁ ⟨h₁, ht₁⟩ t₂ ⟨h₂, ht₂⟩ heq
    refine (h₁.symm.trans h₂).eq_of_basicColumn ht₂ ht₁ (fun i hi => ?_) |>.symm
    exact (congrFun heq ⟨i, h₁.height_eq ▸ hi⟩).symm

end Tableau

/-! ### One pivot -/

namespace Pivot

variable {p : Pivot ℚ} {t t' : Tableau ℚ} (ht : t.IsCanonical) (hp : p.ReadsOff t)
  (he : p.element ≠ 0) (h : p.apply t = .ok t')

include ht hp h

/-- Only the entering column has a reduced cost among the basic columns after a pivot. -/
theorem sum_reducedAt_apply (x : ℕ → ℚ) :
    ∑ k ∈ Finset.range t.height, t.reducedAt (t'.basicColumn k) * x k =
      t.reducedAt p.column * x p.row := by
  have hcolumn := (exchanges_of_apply ht.toIsValid hp h).basicColumn_eq ht.toIsWellFormed hp
  rw [Finset.sum_eq_single_of_mem p.row (Finset.mem_range.2 hp.row_lt), hcolumn, if_pos rfl]
  intro k hk hki
  rw [hcolumn, if_neg hki, ht.reducedAt_basicColumn (Finset.mem_range.1 hk), zero_mul]

include he

/-- A pivot takes the multiple of the divided pivot row from the reduced costs that makes the
reduced cost of the entering column zero. -/
theorem reducedAt_apply {j : Nat} (hj : j < t.width) :
    t'.reducedAt j =
      t.reducedAt j - t.reducedAt p.column * (t.rows.entry p.row j / p.element) := by
  have hsame := p.sameProgram_apply ht.toIsValid hp he h
  have ht' := p.isCanonical_apply ht hp he h
  rw [hsame.reducedAt_eq ht' hj, sum_reducedAt_apply ht hp h,
    entry_apply ht.toIsValid hp he h hp.row_lt, if_pos rfl]

/-- A pivot changes the objective by the reduced cost of the entering column for each unit of its
new value. -/
theorem basicObjective_apply :
    t'.basicObjective =
      t.basicObjective - t.reducedAt p.column * (t.rhsAt p.row / p.element) := by
  have hsame := p.sameProgram_apply ht.toIsValid hp he h
  have ht' := p.isCanonical_apply ht hp he h
  rw [hsame.basicObjective_eq ht', sum_reducedAt_apply ht hp h,
    rhsAt_apply ht.toIsValid hp h hp.row_lt, if_pos rfl]

end Pivot

end LinProg
