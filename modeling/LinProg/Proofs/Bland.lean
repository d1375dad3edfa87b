import LinProg.Proofs.Improvement

/-!
# The rule that excludes cycles

The rule that enters the first column of negative reduced cost, and among the rows that limit it
most leaves the basic variable with the first column, does not take degenerate pivots without end.
Some column would be the last of those that enter again and again. Between two of its entries it has
to leave, and the column that takes its place comes before it. Written down from the reduced costs
at the first entry, the reduced cost of that column is negative only through a row which limits it
just as much, and whose basic variable the rule would have preferred.
-/

namespace LinProg

namespace Pivot

/-- An endless sequence of degenerate pivots by the rule that excludes cycles. -/
structure IsCycling (t : ℕ → Tableau ℚ) (p : ℕ → Pivot ℚ) : Prop where
  isCanonical : ∀ n, (t n).IsCanonical
  improves : ∀ n, (p n).Improves (t n)
  isLowest : ∀ n, (p n).IsLowest (t n)
  rhsAt_row : ∀ n, (t n).rhsAt (p n).row = 0
  apply_eq : ∀ n, (p n).apply (t n) = .ok (t (n + 1))

namespace IsCycling

variable {t : ℕ → Tableau ℚ} {p : ℕ → Pivot ℚ} (h : IsCycling t p)

include h

theorem exchanges (n : ℕ) : (p n).Exchanges (t n) (t (n + 1)) :=
  exchanges_of_apply (h.isCanonical n).toIsValid (h.improves n).readsOff (h.apply_eq n)

theorem sameProgram {m n : ℕ} (hmn : m ≤ n) : (t m).SameProgram (t n) := by
  induction n, hmn using Nat.le_induction with
  | base => exact .refl _
  | succ n hmn ih =>
    exact ih.trans ((p n).sameProgram_apply (h.isCanonical n).toIsValid (h.improves n).readsOff
      (h.improves n).element_pos.ne' (h.apply_eq n))

/-- The basic columns change in the pivot row only. -/
theorem basicColumn_succ (n i : ℕ) :
    (t (n + 1)).basicColumn i = if i = (p n).row then (p n).column else (t n).basicColumn i :=
  (h.exchanges n).basicColumn_eq (h.isCanonical n).toIsWellFormed (h.improves n).readsOff i

/-- While the entering columns stay within a bound, every basic column either was basic before them,
or is within the bound and has right-hand side zero. -/
theorem basicColumn_of_le {m n T : ℕ} (hmn : m ≤ n) (hle : ∀ k ≥ m, (p k).column ≤ T) {i : ℕ}
    (hi : i < (t m).height) :
    (∃ i' < (t m).height, (t m).basicColumn i' = (t n).basicColumn i) ∨
      ((t n).basicColumn i ≤ T ∧ (t n).rhsAt i = 0) := by
  induction n, hmn using Nat.le_induction with
  | base => exact .inl ⟨i, hi, rfl⟩
  | succ n hmn ih =>
    have hi' : i < (t n).height := (h.sameProgram hmn).height_eq.symm ▸ hi
    rw [h.basicColumn_succ, (h.improves n).rhsAt_eq (h.isCanonical n) (h.apply_eq n)
      (h.rhsAt_row n) hi']
    split
    · next hrow => exact .inr ⟨hle n hmn, hrow ▸ h.rhsAt_row n⟩
    · exact ih

/-- A column that enters when no later column enters any more does not leave again. -/
theorem basicColumn_row_ne {m n : ℕ} (hmn : m ≤ n) (hle : ∀ k ≥ m, (p k).column ≤ (p m).column) :
    (t n).basicColumn (p n).row ≠ (p m).column := by
  intro hleaves
  have hsame := h.sameProgram hmn
  have hrow : (p n).row < (t n).height := (h.improves n).readsOff.row_lt
  -- the entering column comes before the one that leaves
  have hne : (p n).column ≠ (p m).column := fun heq =>
    (h.improves n).column_ne (h.isCanonical n) hrow (hleaves.trans heq.symm)
  have hlt : (p n).column < (p m).column := lt_of_le_of_ne (hle n hmn) hne
  have hcolumn : (p n).column < (t m).width := by
    rw [← hsame.width_eq]
    exact (h.improves n).readsOff.column_lt (h.isCanonical n).toIsValid
  have hreduced := hsame.reducedAt_eq (h.isCanonical n) hcolumn
  have hsum : 0 < ∑ k ∈ Finset.range (t m).height,
      (t m).reducedAt ((t n).basicColumn k) * (t n).rows.entry k (p n).column := by
    linarith [(h.improves n).reduced_neg, (h.isLowest m).reduced_nonneg _ hlt]
  obtain ⟨k, hk, hterm⟩ := Finset.exists_lt_of_sum_lt (Finset.sum_const_zero.trans_lt hsum)
  have hk : k < (t m).height := Finset.mem_range.1 hk
  have hk' : k < (t n).height := hsame.height_eq.symm ▸ hk
  rcases h.basicColumn_of_le hmn hle hk with ⟨i, hi, hbasic⟩ | ⟨hbound, hrhs⟩
  · rw [← hbasic, (h.isCanonical m).reducedAt_basicColumn hi, zero_mul] at hterm
    exact hterm.false
  · rcases hbound.eq_or_lt with heq | hbefore
    · -- the row in which the column leaves has a positive entry
      obtain rfl : k = (p n).row :=
        (h.isCanonical n).basicColumn_inj hk' hrow (heq.trans hleaves.symm)
      rw [heq, ← (h.improves n).readsOff.element_eq_entry] at hterm
      exact absurd hterm (mul_neg_of_neg_of_pos (h.improves m).reduced_neg
        (h.improves n).element_pos).not_gt
    · have hentry : 0 < (t n).rows.entry k (p n).column :=
        pos_of_mul_pos_right hterm ((h.isLowest m).reduced_nonneg _ hbefore)
      have hlowest := (h.isLowest n).basicColumn_le k hk' hentry
        (by rw [hrhs, h.rhsAt_row, zero_div, zero_div])
      exact absurd (hleaves ▸ hlowest) (not_le.2 hbefore)

/-- A column that has entered leaves before it enters again. -/
theorem exists_basicColumn_row_eq {m n : ℕ} (hmn : m < n) (heq : (p n).column = (p m).column) :
    ∃ k ≥ m, (t k).basicColumn (p k).row = (p m).column := by
  by_contra hnever
  push Not at hnever
  -- otherwise the column stays basic in the row in which it has entered
  have hstays : ∀ k > m, (t k).basicColumn (p m).row = (p m).column := by
    intro k hk
    induction k, Nat.succ_le_of_lt hk using Nat.le_induction with
    | base => rw [h.basicColumn_succ, if_pos rfl]
    | succ k hmk ih =>
      have hbasic := ih (Nat.lt_of_succ_le hmk)
      rw [h.basicColumn_succ, if_neg, hbasic]
      intro hrow
      exact hnever k (Nat.le_of_succ_le hmk) (hrow ▸ hbasic)
  have hrow : (p m).row < (t n).height :=
    (h.sameProgram hmn.le).height_eq.symm ▸ (h.improves m).readsOff.row_lt
  exact (h.improves n).column_ne (h.isCanonical n) hrow ((hstays n hmn).trans heq.symm)

end IsCycling

/-- A bounded sequence has a value that it takes again and after which it never exceeds it. -/
theorem exists_last_recurring {c : ℕ → ℕ} (B N : ℕ) (hc : ∀ n ≥ N, c n ≤ B) :
    ∃ m, (∀ n ≥ m, c n ≤ c m) ∧ ∃ n > m, c n = c m := by
  induction B generalizing N with
  | zero =>
    have hzero : ∀ n ≥ N, c n = 0 := fun n hn => Nat.le_zero.1 (hc n hn)
    refine ⟨N, fun n hn => ?_, N + 1, N.lt_succ_self, ?_⟩
    · rw [hzero n hn, hzero N le_rfl]
    · rw [hzero _ N.le_succ, hzero N le_rfl]
  | succ B ih =>
    by_cases hbelow : ∃ N', ∀ n ≥ N', c n ≤ B
    · obtain ⟨N', hbelow⟩ := hbelow
      exact ih N' hbelow
    · push Not at hbelow
      obtain ⟨m, hm, hBm⟩ := hbelow N
      obtain ⟨n, hn, hBn⟩ := hbelow (m + 1)
      have htop : c m = B + 1 := le_antisymm (hc m hm) hBm
      refine ⟨m, fun k hk => htop ▸ hc k (hm.trans hk), n, hn, ?_⟩
      rw [htop]
      exact le_antisymm (hc n (hm.trans (Nat.le_of_lt hn))) hBn

/-- The rule that excludes cycles does not take degenerate pivots without end. -/
theorem not_isCycling (t : ℕ → Tableau ℚ) (p : ℕ → Pivot ℚ) : ¬ IsCycling t p := by
  intro h
  have hbound : ∀ n ≥ 0, (p n).column ≤ (t 0).width := fun n hn => by
    rw [← (h.sameProgram hn).width_eq]
    exact ((h.improves n).readsOff.column_lt (h.isCanonical n).toIsValid).le
  obtain ⟨m, hlast, n, hmn, heq⟩ := exists_last_recurring _ 0 hbound
  obtain ⟨k, hmk, hleaves⟩ := h.exists_basicColumn_row_eq hmn heq
  exact h.basicColumn_row_ne hmk hlast hleaves

end Pivot

end LinProg
