import LinProg.Proofs.Points

/-!
# The inverse of the basis

In the slack columns of a tableau stands the inverse of its basis, if the slack columns were the
identity before any pivot. In exact arithmetic this follows from what pivots keep, the points that
satisfy the rows: each column of the initial rows, and their right-hand sides, can be made up for in
the slack columns. Conversely a tableau that is the product of the inverse and other rows states the
same program as these rows, because no combination of the columns of the inverse is zero.
-/

namespace LinProg

namespace Tableau

/-- The entry of the inverse of the basis, which stands in the slack columns. -/
def inverseAt (t : Tableau ℚ) (i l : Nat) : ℚ := t.rows.entry i (t.structural + l)

/-- The point that has the given values at the slack variables and is zero elsewhere. -/
def slackPoint (t : Tableau ℚ) (x : ℕ → ℚ) (j : Nat) : ℚ :=
  if j < t.structural then 0 else x (j - t.structural)

variable {t : Tableau ℚ}

/-- A sum over the columns of a point that is zero outside the slack columns. -/
theorem IsValid.sum_slackPoint (ht : t.IsValid) (f x : ℕ → ℚ) :
    ∑ j ∈ Finset.range t.width, f j * t.slackPoint x j =
      ∑ l ∈ Finset.range t.height, f (t.structural + l) * x l := by
  rw [← ht.structural_add_height, Finset.sum_range_add, Finset.sum_eq_zero, zero_add]
  · refine Finset.sum_congr rfl fun l _ => ?_
    rw [slackPoint, if_neg (by omega), Nat.add_sub_cancel_left]
  · intro j hj
    rw [slackPoint, if_pos (Finset.mem_range.1 hj), mul_zero]

theorem IsValid.entry_slack (ht : t.IsValid) (hid : t.rows.HasIdentityAt t.structural) {i l : Nat}
    (hi : i < t.height) (hl : l < t.height) :
    t.rows.entry i (t.structural + l) = if i = l then 1 else 0 :=
  beq_iff_eq.1 (ht.hasIdentity_iff_beq.1 hid i hi l hl)

/-- The inverse of the basis can be read off, entry by entry. -/
theorem IsValid.exists_basisInverse_eq_ok (ht : t.IsValid) :
    ∃ inverse, t.rows.basisInverse = .ok inverse ∧ inverse.HasShape t.height t.height ∧
      ∀ i < t.height, ∀ l < t.height, inverse.entry i l = t.inverseAt i l :=
  ht.hasShape.basisInverse_eq_ok ht.height_le_width

section

variable {inverse : Rows ℚ} (ht : t.IsValid) (hinverse : t.rows.basisInverse = .ok inverse)

include ht hinverse

theorem IsValid.entry_basisInverse : inverse.HasShape t.height t.height ∧
    ∀ i < t.height, ∀ l < t.height, inverse.entry i l = t.inverseAt i l := by
  obtain ⟨inverse', hinverse', hread⟩ := ht.exists_basisInverse_eq_ok
  rw [hinverse, Except.ok.injEq] at hinverse'
  rwa [hinverse']

/-- The product of the inverse that is read off and a vector. -/
theorem IsValid.apply_basisInverse {v r : List ℚ} (hv : v.length = t.height) :
    inverse.apply v = .ok r ↔ r.length = t.height ∧ ∀ i < t.height,
      r.getD i 0 = ∑ l ∈ Finset.range t.height, t.inverseAt i l * v.getD l 0 := by
  obtain ⟨hshape, hentry⟩ := ht.entry_basisInverse hinverse
  rw [hshape.apply_eq_ok hv]
  refine and_congr_right fun _ => forall₂_congr fun i hi => ?_
  rw [Finset.sum_congr rfl fun l hl => by rw [hentry i hi l (Finset.mem_range.1 hl)]]

/-- The product of the inverse that is read off and a matrix. -/
theorem IsValid.mul_basisInverse {m p : Rows ℚ} {w : Nat} (hm : m.HasShape t.height w) :
    inverse.mul m = .ok p ↔ p.HasShape t.height w ∧ ∀ i < t.height, ∀ j < w,
      p.entry i j = ∑ l ∈ Finset.range t.height, t.inverseAt i l * m.entry l j := by
  obtain ⟨hshape, hentry⟩ := ht.entry_basisInverse hinverse
  rw [hshape.mul_eq_ok hm]
  refine and_congr_right fun _ => forall₂_congr fun i hi => forall₂_congr fun j _ => ?_
  rw [Finset.sum_congr rfl fun l hl => by rw [hentry i hi l (Finset.mem_range.1 hl)]]

end

/-- Rows whose slack columns form the identity sum up to the values of their slack variables. -/
theorem IsValid.row_slackPoint (ht : t.IsValid) (hid : t.rows.HasIdentityAt t.structural)
    (x : ℕ → ℚ) {i : Nat} (hi : i < t.height) :
    ∑ j ∈ Finset.range t.width, t.rows.entry i j * t.slackPoint x j = x i := by
  rw [ht.sum_slackPoint, Finset.sum_eq_single_of_mem i (Finset.mem_range.2 hi)]
  · rw [ht.entry_slack hid hi hi, if_pos rfl, one_mul]
  · intro k hk hki
    rw [ht.entry_slack hid hi (Finset.mem_range.1 hk), if_neg (Ne.symm hki), zero_mul]

theorem SameProgram.structural_eq {raw : Tableau ℚ} (h : raw.SameProgram t) :
    t.structural = raw.structural := by
  rw [structural, structural, h.width_eq, h.height_eq]

theorem SameProgram.slackPoint_eq {raw : Tableau ℚ} (h : raw.SameProgram t) (x : ℕ → ℚ) :
    t.slackPoint x = raw.slackPoint x := by
  funext j
  rw [slackPoint, slackPoint, h.structural_eq]

/-- A canonical tableau states the program of initial rows whose slack columns form the identity. -/
structure Underlies (raw t : Tableau ℚ) : Prop where
  isValid : raw.IsValid
  hasIdentity : raw.rows.HasIdentityAt raw.structural
  isCanonical : t.IsCanonical
  sameProgram : raw.SameProgram t

namespace Underlies

variable {raw : Tableau ℚ} (h : raw.Underlies t)

include h

/-- The right-hand sides are the product of the inverse and the initial right-hand sides. -/
theorem rhsAt_eq {i : Nat} (hi : i < t.height) :
    t.rhsAt i = ∑ l ∈ Finset.range t.height, t.inverseAt i l * raw.rhsAt l := by
  have hsolves : raw.Solves 1 (raw.slackPoint raw.rhsAt) := by
    intro k hk
    rw [h.isValid.row_slackPoint h.hasIdentity _ hk, one_mul]
  have hrow := (h.sameProgram.solves_iff 1 _).2 hsolves i hi
  rw [← h.sameProgram.slackPoint_eq, h.isCanonical.sum_slackPoint, one_mul] at hrow
  exact hrow.symm

/-- The rows are the product of the inverse and the initial rows. -/
theorem entry_eq {i j : Nat} (hi : i < t.height) (hj : j < t.width) :
    t.rows.entry i j = ∑ l ∈ Finset.range t.height, t.inverseAt i l * raw.rows.entry l j := by
  have hunit : ∀ (m : Rows ℚ) (k : Nat),
      ∑ j' ∈ Finset.range t.width, m.entry k j' * (if j' = j then 1 else 0) = m.entry k j := by
    intro m k
    simp only [mul_ite, mul_one, mul_zero, Finset.sum_ite_eq', Finset.mem_range, if_pos hj]
  -- the slack variables make up for one unit of the column
  have hsolves : raw.Solves 0 fun j' =>
      (if j' = j then 1 else 0) - raw.slackPoint (fun l => raw.rows.entry l j) j' := by
    intro k hk
    simp only [mul_sub, Finset.sum_sub_distrib]
    rw [h.isValid.row_slackPoint h.hasIdentity _ hk, ← h.sameProgram.width_eq, hunit, sub_self,
      zero_mul]
  have hrow := (h.sameProgram.solves_iff 0 _).2 hsolves i hi
  simp only [mul_sub, Finset.sum_sub_distrib] at hrow
  rw [hunit, ← h.sameProgram.slackPoint_eq, h.isCanonical.sum_slackPoint, zero_mul,
    sub_eq_zero] at hrow
  exact hrow

/-- No combination of the columns of the inverse is zero. -/
theorem eq_zero_of_inverse {w : ℕ → ℚ}
    (hw : ∀ i < t.height, ∑ l ∈ Finset.range t.height, t.inverseAt i l * w l = 0) :
    ∀ i < t.height, w i = 0 := by
  have hsolves : t.Solves 0 (t.slackPoint w) := by
    intro i hi
    rw [h.isCanonical.sum_slackPoint, zero_mul]
    exact hw i hi
  intro i hi
  have hi' : i < raw.height := h.sameProgram.height_eq ▸ hi
  rw [h.sameProgram.solves_iff, h.sameProgram.slackPoint_eq] at hsolves
  have hrow := hsolves i hi'
  rwa [h.isValid.row_slackPoint h.hasIdentity _ hi', zero_mul] at hrow

/-- Other rows and right-hand sides, multiplied with the inverse, state the same program as
before. -/
theorem sameProgram_of_inverse {raw' t' : Tableau ℚ} (hnames : t'.names = raw'.names)
    (hcosts : t'.costs = raw'.costs) (hheight : raw'.height = t.height)
    (hheight' : t'.height = t.height)
    (hentry : ∀ i < t.height, ∀ j < t'.width, t'.rows.entry i j =
      ∑ l ∈ Finset.range t.height, t.inverseAt i l * raw'.rows.entry l j)
    (hrhs : ∀ i < t.height, t'.rhsAt i =
      ∑ l ∈ Finset.range t.height, t.inverseAt i l * raw'.rhsAt l) :
    raw'.SameProgram t' := by
  refine ⟨hnames, hcosts, hheight'.trans hheight.symm, fun u y => ?_⟩
  have hwidth : t'.width = raw'.width := congrArg List.length hnames
  have hresidual : ∀ i < t.height, t'.residual u y i =
      ∑ l ∈ Finset.range t.height, t.inverseAt i l * raw'.residual u y l := by
    intro i hi
    have hleft : ∑ j ∈ Finset.range t'.width, t'.rows.entry i j * y j =
        ∑ l ∈ Finset.range t.height, t.inverseAt i l *
          ∑ j ∈ Finset.range t'.width, raw'.rows.entry l j * y j := by
      simp only [Finset.mul_sum]
      rw [Finset.sum_comm]
      refine Finset.sum_congr rfl fun j hj => ?_
      rw [hentry i hi j (Finset.mem_range.1 hj), Finset.sum_mul]
      exact Finset.sum_congr rfl fun l _ => by ring
    simp only [residual, mul_sub, Finset.sum_sub_distrib]
    rw [hleft, hrhs i hi, hwidth, Finset.mul_sum]
    congr 1
    exact Finset.sum_congr rfl fun l _ => by ring
  rw [solves_iff_residual, solves_iff_residual, hheight, hheight']
  constructor
  · intro hzero
    refine h.eq_zero_of_inverse fun i hi => ?_
    rw [← hresidual i hi]
    exact hzero i hi
  · intro hzero i hi
    rw [hresidual i hi]
    refine Finset.sum_eq_zero fun l hl => ?_
    rw [hzero l (Finset.mem_range.1 hl), mul_zero]

/-! ### The products of the inverse -/

theorem hasShape_rows : raw.rows.HasShape t.height t.width := by
  rw [h.sameProgram.height_eq, h.sameProgram.width_eq]
  exact h.isValid.hasShape

variable {inverse : Rows ℚ} (hinverse : t.rows.basisInverse = .ok inverse)

include hinverse

/-- The inverse turns the initial rows into the rows. -/
theorem mul_rows : inverse.mul raw.rows = .ok t.rows :=
  (h.isCanonical.mul_basisInverse hinverse h.hasShape_rows).2
    ⟨h.isCanonical.hasShape, fun _ hi _ hj => h.entry_eq hi hj⟩

/-- The inverse turns the initial right-hand sides into the right-hand sides. -/
theorem apply_rhs : inverse.apply raw.rhs = .ok t.rhs := by
  have hlen : raw.rhs.length = t.height := by
    rw [h.sameProgram.height_eq, h.isValid.length_rhs]
  exact (h.isCanonical.apply_basisInverse hinverse hlen).2
    ⟨h.isCanonical.length_rhs, fun _ hi => h.rhsAt_eq hi⟩

/-- The inverse turns the initial column of each basic variable into a column of the identity. -/
theorem exists_basic_column {i : Nat} (hi : i < t.height) :
    ∃ column, raw.rows.column (t.basicColumn i) = .ok column ∧
      inverse.apply column = .ok (Rows.unit t.height i) := by
  have hcolumn := h.isCanonical.basicColumn_lt hi
  have hlen : (raw.rows.map (·.getD (t.basicColumn i) 0)).length = t.height := by
    rw [List.length_map, h.hasShape_rows.length_eq]
  refine ⟨_, h.hasShape_rows.column_eq_ok hcolumn, ?_⟩
  rw [h.isCanonical.apply_basisInverse hinverse hlen]
  refine ⟨Rows.length_unit _ _, fun k hk => ?_⟩
  rw [Rows.getD_unit hk, ← h.isCanonical.entry_basicColumn hi hk, h.entry_eq hk hcolumn]
  exact Finset.sum_congr rfl fun l _ => by rw [Rows.getD_map_getD]

end Underlies

end Tableau

end LinProg
