import LinProg.Proofs.BasicPoint

/-!
# Vertices

A vertex is a feasible point that lies inside no segment between other feasible points. The basic
point of a canonical tableau is a vertex, and a vertex lies above no other feasible point. If only
basic columns and columns without a positive entry have no reduced cost, every optimal point lies
above the basic point, so the basic point is then the only optimal vertex: along the columns without
a positive entry the optimal points go on without end, but none of those ways ends in a vertex.
-/

namespace LinProg

namespace Tableau

/-- A feasible point that lies inside no segment between other feasible points. -/
structure IsVertex (t : Tableau ℚ) (y : ℕ → ℚ) : Prop where
  isFeasible : t.IsFeasible y
  eq_of_segment : ∀ (y₁ y₂ : ℕ → ℚ) (θ : ℚ), t.IsFeasible y₁ → t.IsFeasible y₂ → 0 < θ → θ < 1 →
    (∀ j < t.width, y j = (1 - θ) * y₁ j + θ * y₂ j) → ∀ j < t.width, y₁ j = y j ∧ y₂ j = y j

/-- The part of a point outside the basis. -/
def offBasis (t : Tableau ℚ) (y : ℕ → ℚ) (j : Nat) : ℚ :=
  y j - t.atBasis (fun i => y (t.basicColumn i)) j

variable {t t' : Tableau ℚ} {y : ℕ → ℚ}

theorem SameProgram.isVertex (h : t.SameProgram t') (hy : t.IsVertex y) : t'.IsVertex y := by
  refine ⟨h.isFeasible_iff.2 hy.isFeasible, fun y₁ y₂ θ h₁ h₂ hpos hlt hsegment => ?_⟩
  rw [h.width_eq] at hsegment ⊢
  exact hy.eq_of_segment y₁ y₂ θ (h.isFeasible_iff.1 h₁) (h.isFeasible_iff.1 h₂) hpos hlt hsegment

/-! ### Points above the basic point -/

theorem IsCanonical.offBasis_basicColumn (ht : t.IsCanonical) (y : ℕ → ℚ) {i : Nat}
    (hi : i < t.height) : t.offBasis y (t.basicColumn i) = 0 := by
  rw [offBasis, ht.atBasis_basicColumn _ hi, sub_self]

theorem offBasis_of_ne {j : Nat} (h : ∀ i < t.height, t.basicColumn i ≠ j) :
    t.offBasis y j = y j := by
  rw [offBasis, atBasis_of_ne h, sub_zero]

/-- A row gives the value of its basic variable what the other variables leave of its right-hand
side. -/
theorem IsCanonical.basicColumn_eq_sub (ht : t.IsCanonical) (hy : t.IsFeasible y) {i : Nat}
    (hi : i < t.height) :
    y (t.basicColumn i) =
      t.rhsAt i - ∑ j ∈ Finset.range t.width, t.rows.entry i j * t.offBasis y j := by
  have hrow := hy.row_eq i hi
  have hbasis := ht.row_atBasis (fun k => y (t.basicColumn k)) hi
  simp only [offBasis, mul_sub, Finset.sum_sub_distrib]
  linarith

/-- A feasible point lies above the basic point if none of its values outside the basis lowers a
basic variable. -/
theorem IsCanonical.basicPoint_le (ht : t.IsCanonical) (hy : t.IsFeasible y)
    (hentries : ∀ j < t.width, (∀ i < t.height, t.basicColumn i ≠ j) →
      ∀ i < t.height, t.rows.entry i j * y j ≤ 0) {j : Nat} (hj : j < t.width) :
    t.basicPoint j ≤ y j := by
  by_cases hbasic : ∃ i < t.height, t.basicColumn i = j
  · obtain ⟨i, hi, rfl⟩ := hbasic
    have hsum : ∑ j ∈ Finset.range t.width, t.rows.entry i j * t.offBasis y j ≤ 0 := by
      refine Finset.sum_nonpos fun j hj => ?_
      by_cases hbasic : ∃ k < t.height, t.basicColumn k = j
      · obtain ⟨k, hk, rfl⟩ := hbasic
        rw [ht.offBasis_basicColumn y hk, mul_zero]
      · have hne : ∀ k < t.height, t.basicColumn k ≠ j := fun k hk heq => hbasic ⟨k, hk, heq⟩
        rw [offBasis_of_ne hne]
        exact hentries j (Finset.mem_range.1 hj) hne i hi
    rw [basicPoint, ht.atBasis_basicColumn _ hi, ht.basicColumn_eq_sub hy hi]
    linarith
  · rw [basicPoint, atBasis_of_ne fun i hi heq => hbasic ⟨i, hi, heq⟩]
    exact hy.nonneg j hj

/-- A value inside a segment that is below both ends is equal to both. -/
theorem eq_of_segment_of_le {θ x a b : ℚ} (hpos : 0 < θ) (hlt : θ < 1) (ha : x ≤ a) (hb : x ≤ b)
    (hx : x = (1 - θ) * a + θ * b) : a = x ∧ b = x := by
  have hrest : 0 < 1 - θ := sub_pos.2 hlt
  have hleft := mul_nonneg hrest.le (sub_nonneg.2 ha)
  have hright := mul_nonneg hpos.le (sub_nonneg.2 hb)
  have hleft' : (1 - θ) * (a - x) = 0 := by linarith
  have hright' : θ * (b - x) = 0 := by linarith
  exact ⟨sub_eq_zero.1 ((mul_eq_zero.1 hleft').resolve_left hrest.ne'),
    sub_eq_zero.1 ((mul_eq_zero.1 hright').resolve_left hpos.ne')⟩

/-- The basic point of a canonical tableau without negative right-hand sides is a vertex. -/
theorem IsCanonical.isVertex_basicPoint (ht : t.IsCanonical)
    (hrhs : ∀ i < t.height, 0 ≤ t.rhsAt i) : t.IsVertex t.basicPoint := by
  refine ⟨ht.isFeasible_basicPoint hrhs, fun y₁ y₂ θ h₁ h₂ hpos hlt hsegment => ?_⟩
  -- both ends are zero outside the basis, since the point between them is
  have hzero : ∀ j < t.width, (∀ i < t.height, t.basicColumn i ≠ j) → y₁ j = 0 ∧ y₂ j = 0 := by
    intro j hj hne
    have hsum := hsegment j hj
    rw [basicPoint, atBasis_of_ne hne] at hsum
    exact eq_of_segment_of_le hpos hlt (h₁.nonneg j hj) (h₂.nonneg j hj) hsum
  intro j hj
  refine eq_of_segment_of_le hpos hlt ?_ ?_ (hsegment j hj)
  · refine ht.basicPoint_le h₁ (fun k hk hne i _ => ?_) hj
    rw [(hzero k hk hne).1, mul_zero]
  · refine ht.basicPoint_le h₂ (fun k hk hne i _ => ?_) hj
    rw [(hzero k hk hne).2, mul_zero]

/-- A vertex lies above no other feasible point: it would be half way from that point to the point
on the other side. -/
theorem IsVertex.eq_of_le (hy : t.IsVertex y) {z : ℕ → ℚ} (hz : t.IsFeasible z)
    (hle : ∀ j < t.width, z j ≤ y j) {j : Nat} (hj : j < t.width) : z j = y j := by
  have hsolves := (isFeasible_iff.1 hy.isFeasible).2
  have hbeyond : t.IsFeasible fun j => y j + 1 * (y j + -1 * z j) := by
    refine isFeasible_iff.2 ⟨fun j hj => ?_, ?_⟩
    · have hnonneg := hy.isFeasible.nonneg j hj
      have hbelow := hle j hj
      linarith
    · have hmoved := hsolves.add_smul (hsolves.add_smul (isFeasible_iff.1 hz).2 (-1)) 1
      have hone : (1 : ℚ) + 1 * (1 + -1 * 1) = 1 := by norm_num
      rwa [hone] at hmoved
  refine (hy.eq_of_segment z _ (1 / 2) hz hbeyond (by norm_num) (by norm_num) (fun j _ => ?_)
    j hj).1
  ring

/-! ### The only optimal vertex -/

/-- If no reduced cost is negative, and the columns outside the basis without reduced cost have no
positive entry, then a vertex that costs as much as the basic point is the basic point. -/
theorem IsCanonical.eq_basicPoint_of_isVertex (ht : t.IsCanonical)
    (hrhs : ∀ i < t.height, 0 ≤ t.rhsAt i) (hreduced : ∀ j < t.width, 0 ≤ t.reducedAt j)
    (hentries : ∀ j < t.width, (∀ i < t.height, t.basicColumn i ≠ j) → t.reducedAt j = 0 →
      ∀ i < t.height, t.rows.entry i j ≤ 0)
    (hy : t.IsVertex y) (hvalue : t.valueAt y = t.basicObjective) {j : Nat} (hj : j < t.width) :
    y j = t.basicPoint j := by
  have hfeasible := hy.isFeasible
  have hsum : ∑ j ∈ Finset.range t.width, t.reducedAt j * y j = 0 := by
    have hcost := (isFeasible_iff.1 hfeasible).2.valueAt_eq
    linarith
  have hterm : ∀ j < t.width, t.reducedAt j * y j = 0 := by
    intro j hj
    refine (Finset.sum_eq_zero_iff_of_nonneg fun j hj => ?_).1 hsum j (Finset.mem_range.2 hj)
    have hj := Finset.mem_range.1 hj
    exact mul_nonneg (hreduced j hj) (hfeasible.nonneg j hj)
  refine (hy.eq_of_le (ht.isFeasible_basicPoint hrhs) (fun j hj => ?_) hj).symm
  refine ht.basicPoint_le hfeasible (fun k hk hne i hi => ?_) hj
  rcases mul_eq_zero.1 (hterm k hk) with hfree | hzero
  · exact mul_nonpos_of_nonpos_of_nonneg (hentries k hk hne hfree i hi) (hfeasible.nonneg k hk)
  · rw [hzero, mul_zero]

end Tableau

end LinProg
