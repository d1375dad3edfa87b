import LinProg.Proofs.Exchange
import LinProg.Proofs.Verdict

/-!
# Improving a feasible tableau

At a tableau without negative right-hand sides a run pivots by the ratio test in a column of
negative reduced cost. The pivot row sets the least limit to the growth of the entering variable, so
no right-hand side becomes negative, and the objective grows by the reduced cost for each unit of
that limit: it grows exactly if the pivot is not degenerate.
-/

namespace LinProg

open Scalar

namespace Selection

/-- Where no right-hand side is negative, each row with a positive entry in the column sets a limit,
its right-hand side divided by the entry. -/
theorem getElem?_limits_eq_some_of_nonneg {t : Tableau ℚ} (ht : t.IsValid)
    (hrhs : ∀ i < t.height, 0 ≤ t.rhsAt i) {column : Nat} {entries : List ℚ}
    (hentries : t.rows.column column = .ok entries) {i : Nat} {v : ℚ} :
    ((List.zipWith growthRatio entries t.rhs).map (·.filter limits))[i]? = some (some v) ↔
      i < t.height ∧ 0 < t.rows.entry i column ∧ t.rhsAt i / t.rows.entry i column = v := by
  rw [getElem?_limits_eq_some ht hentries, isPositive_iff]
  refine and_congr_right fun hi => and_congr_right fun hpos => and_iff_left_of_imp ?_
  rintro rfl
  exact (Bool.not_eq_eq_eq_not).2 (decide_eq_false (not_lt.2 (div_nonneg (hrhs i hi) hpos.le)))

end Selection

/-! ### The pivot -/

namespace Pivot

/-- The pivot is on a positive element, in the row that limits the variable of its column most. -/
structure IsTightest (p : Pivot ℚ) (t : Tableau ℚ) : Prop where
  readsOff : p.ReadsOff t
  element_pos : 0 < p.element
  ratio_le : ∀ i < t.height, 0 < t.rows.entry i p.column →
    t.rhsAt p.row / p.element ≤ t.rhsAt i / t.rows.entry i p.column

/-- The pivot enters a column of negative reduced cost, in the row that limits its variable most. -/
structure Improves (p : Pivot ℚ) (t : Tableau ℚ) : Prop where
  readsOff : p.ReadsOff t
  element_pos : 0 < p.element
  reduced_neg : t.reducedAt p.column < 0
  ratio_le : ∀ i < t.height, 0 < t.rows.entry i p.column →
    t.rhsAt p.row / p.element ≤ t.rhsAt i / t.rows.entry i p.column
  isDegenerate_iff : p.isDegenerate = true ↔ t.rhsAt p.row = 0

/-- The pivot enters the first column of negative reduced cost, and among the rows that limit its
variable most it takes the one whose basic variable has the first column. -/
structure IsLowest (p : Pivot ℚ) (t : Tableau ℚ) : Prop where
  reduced_nonneg : ∀ j < p.column, 0 ≤ t.reducedAt j
  basicColumn_le : ∀ i < t.height, 0 < t.rows.entry i p.column →
    t.rhsAt i / t.rows.entry i p.column = t.rhsAt p.row / p.element →
      t.basicColumn p.row ≤ t.basicColumn i

variable {p : Pivot ℚ} {t t' : Tableau ℚ}

/-- No right-hand side becomes negative. -/
theorem IsTightest.rhsAt_nonneg (h : p.IsTightest t) (ht : t.IsValid) (happly : p.apply t = .ok t')
    (hrhs : ∀ i < t.height, 0 ≤ t.rhsAt i) : ∀ i < t.height, 0 ≤ t'.rhsAt i := by
  have hratio : 0 ≤ t.rhsAt p.row / p.element :=
    div_nonneg (hrhs _ h.readsOff.row_lt) h.element_pos.le
  intro i hi
  rw [rhsAt_apply ht h.readsOff happly hi]
  split
  · exact hratio
  · rcases le_or_gt (t.rows.entry i p.column) 0 with hentry | hentry
    · exact sub_nonneg.2 ((mul_nonpos_of_nonpos_of_nonneg hentry hratio).trans (hrhs i hi))
    · have hle := h.ratio_le i hi hentry
      rw [le_div_iff₀ hentry] at hle
      rw [mul_comm]
      exact sub_nonneg.2 hle

namespace Improves

variable (h : p.Improves t) (ht : t.IsCanonical) (happly : p.apply t = .ok t')

include h

/-- The entering variable is not basic. -/
theorem column_ne (ht : t.IsCanonical) {i : Nat} (hi : i < t.height) :
    t.basicColumn i ≠ p.column := by
  intro heq
  have hzero := ht.reducedAt_basicColumn hi
  rw [heq] at hzero
  exact h.reduced_neg.ne hzero

include ht happly

/-- No right-hand side becomes negative. -/
theorem rhsAt_nonneg (hrhs : ∀ i < t.height, 0 ≤ t.rhsAt i) : ∀ i < t.height, 0 ≤ t'.rhsAt i :=
  IsTightest.rhsAt_nonneg ⟨h.readsOff, h.element_pos, h.ratio_le⟩ ht.toIsValid happly hrhs

/-- The objective does not fall. -/
theorem basicObjective_le (hrhs : ∀ i < t.height, 0 ≤ t.rhsAt i) :
    t.basicObjective ≤ t'.basicObjective := by
  rw [basicObjective_apply ht h.readsOff h.element_pos.ne' happly]
  have hratio : 0 ≤ t.rhsAt p.row / p.element :=
    div_nonneg (hrhs _ h.readsOff.row_lt) h.element_pos.le
  linarith [mul_nonpos_of_nonpos_of_nonneg h.reduced_neg.le hratio]

/-- The objective grows unless the right-hand side of the pivot row is zero. -/
theorem basicObjective_lt (hrhs : 0 < t.rhsAt p.row) : t.basicObjective < t'.basicObjective := by
  rw [basicObjective_apply ht h.readsOff h.element_pos.ne' happly]
  linarith [mul_neg_of_neg_of_pos h.reduced_neg (div_pos hrhs h.element_pos)]

/-- The objective stays where it is exactly if the right-hand side of the pivot row is zero. -/
theorem basicObjective_eq_iff : t'.basicObjective = t.basicObjective ↔ t.rhsAt p.row = 0 := by
  rw [basicObjective_apply ht h.readsOff h.element_pos.ne' happly, sub_eq_self, mul_eq_zero,
    or_iff_right h.reduced_neg.ne, div_eq_zero_iff, or_iff_left h.element_pos.ne']

/-- A pivot in a row of right-hand side zero changes no right-hand side. -/
theorem rhsAt_eq (hzero : t.rhsAt p.row = 0) {i : Nat} (hi : i < t.height) :
    t'.rhsAt i = t.rhsAt i := by
  rw [rhsAt_apply ht.toIsValid h.readsOff happly hi, hzero, zero_div, mul_zero, sub_zero]
  split
  · next hip => rw [hip, hzero]
  · rfl

end Improves

end Pivot

/-! ### The step -/

namespace Selection

variable {t : Tableau ℚ} {column : Nat} {rule : PivotRule} {precedes : Nat → Nat → Bool}
  {p : Pivot ℚ} (ht : t.IsValid) (hrhs : ∀ i < t.height, 0 ≤ t.rhsAt i)
  (h : ratioTest t column rule precedes = .ok (.pivot p))

include ht hrhs h

/-- The pivot of the ratio test is in a row of least limit. -/
theorem isTightest_of_ratioTest : p.column = column ∧ p.IsTightest t := by
  obtain ⟨entries, hentries, ⟨hnone, -⟩ | ⟨q, hsome, -, rfl, hp, hpos, hratios, hleast⟩⟩ :=
    ratioTest_cases h
  · cases hnone
  cases hsome
  rw [hratios] at hleast
  obtain ⟨v, hv, hle⟩ := leastIndexBy?_le hleast
  obtain ⟨-, -, hratio⟩ := (getElem?_limits_eq_some_of_nonneg ht hrhs hentries).1 hv
  refine ⟨rfl, hp, isPositive_iff.1 hpos, fun i hi hentry => ?_⟩
  rw [hp.element_eq_entry, hratio]
  have hlimit := (getElem?_limits_eq_some_of_nonneg ht hrhs hentries).2 ⟨hi, hentry, rfl⟩
  exact hle _ (List.mem_of_getElem? hlimit)

/-- In a column of negative reduced cost it improves the tableau. -/
theorem improves_of_ratioTest (hrule : rule ≠ .infeasibility) (hreduced : t.reducedAt column < 0) :
    p.Improves t := by
  obtain ⟨rfl, htightest⟩ := isTightest_of_ratioTest ht hrhs h
  refine ⟨htightest.readsOff, htightest.element_pos, hreduced, htightest.ratio_le, ?_⟩
  obtain ⟨entries, hentries, ⟨hnone, -⟩ | ⟨q, hsome, rfl, -, hp, -, hratios, hleast⟩⟩ :=
    ratioTest_cases h
  · cases hnone
  cases hsome
  rw [hratios] at hleast
  obtain ⟨v, hv, -⟩ := leastIndexBy?_le hleast
  obtain ⟨-, -, hratio⟩ := (getElem?_limits_eq_some_of_nonneg ht hrhs hentries).1 hv
  rw [List.getElem?_map, Option.map_eq_some_iff] at hv
  obtain ⟨o, ho, hv⟩ := hv
  obtain ⟨rfl, -⟩ := Option.filter_eq_some_iff.1 hv
  rw [Pivot.isDegenerate, hratios, ho]
  have hzero : v = 0 ↔ t.rhsAt p.row = 0 := by
    rw [← hratio, ← hp.element_eq_entry, div_eq_zero_iff, or_iff_left htightest.element_pos.ne']
  simpa [hrule, isZero, correct] using hzero

/-- If ties are decided by the columns of the basic variables, the first of them leaves. -/
theorem isLowest_of_ratioTest (hreduced : ∀ j < column, 0 ≤ t.reducedAt j)
    (hprecedes : precedes = fun row holder =>
      decide ((t.basis.map t.names.idxOf).getD row 0 < (t.basis.map t.names.idxOf).getD holder 0)) :
    p.IsLowest t := by
  obtain ⟨entries, hentries, ⟨hnone, -⟩ | ⟨q, hsome, rfl, rfl, hp, -, hratios, hleast⟩⟩ :=
    ratioTest_cases h
  · cases hnone
  cases hsome
  rw [hratios] at hleast
  obtain ⟨v, hv, -⟩ := leastIndexBy?_le hleast
  obtain ⟨-, -, hratio⟩ := (getElem?_limits_eq_some_of_nonneg ht hrhs hentries).1 hv
  refine ⟨hreduced, fun i hi hentry htie => ?_⟩
  rw [hp.element_eq_entry, hratio] at htie
  have hi' := (getElem?_limits_eq_some_of_nonneg ht hrhs hentries).2 ⟨hi, hentry, htie⟩
  subst hprecedes
  have hkey := leastIndexBy?_key_le hleast hv hi'
  rwa [List.getD_eq_getElem?_getD, List.getD_eq_getElem?_getD, Tableau.getD_map_idxOf ht hp.row_lt,
    Tableau.getD_map_idxOf ht hi] at hkey

end Selection

namespace Solver

variable {s : Solver} {r r' : Run ℚ}

/-- A step of a run that improves a feasible tableau. -/
structure Improves (s : Solver) (r r' : Run ℚ) (p : Pivot ℚ) : Prop where
  pivot : p.Improves r.tableau
  apply_eq : p.apply r.tableau = .ok r'.tableau
  streak_eq : r'.streak = if r.tableau.rhsAt p.row = 0 then r.streak + 1 else 0
  isLowest : s.degenerateStreakLimit ≤ r.streak → p.IsLowest r.tableau

/-- A pivot from a canonical tableau without negative right-hand sides is found by the ratio test of
a run that improves. -/
theorem tests_of_next {p : Pivot ℚ} {costs : ReducedCosts ℚ} (hr : r.tableau.IsCanonical)
    (hrhs : ∀ i < r.tableau.height, 0 ≤ r.tableau.rhsAt i) (h : s.next r = .ok (.pivot p, costs)) :
    ∃ column rule precedes, s.Tests r column rule precedes ∧
      Selection.ratioTest r.tableau column rule precedes = .ok (.pivot p) := by
  obtain ⟨hcosts, ⟨-, hmove⟩ | ⟨hoptimal, selection, hselection, hmove⟩⟩ := next_cases h
  · cases hmove
  cases hmove
  cases hstanding : Standing.classify r.tableau.rhs costs.reduced with
  | optimal => exact absurd hstanding hoptimal
  | infeasible row =>
    obtain ⟨hrow, hneg⟩ := rhsAt_neg_of_classify hr.toIsValid hstanding
    exact absurd hneg (not_lt.2 (hrhs row hrow))
  | improvable =>
    rw [hstanding] at hselection
    exact improve_cases hr.toIsWellFormed hcosts hstanding hselection

/-- Such a pivot improves the tableau, and its rule is not the one that repairs. -/
theorem improves_of_next {p : Pivot ℚ} {costs : ReducedCosts ℚ} (hr : r.tableau.IsCanonical)
    (hrhs : ∀ i < r.tableau.height, 0 ≤ r.tableau.rhsAt i) (h : s.next r = .ok (.pivot p, costs)) :
    p.rule ≠ .infeasibility ∧ p.Improves r.tableau := by
  obtain ⟨column, rule, precedes, htests, htest⟩ := tests_of_next hr hrhs h
  rw [Selection.rule_of_ratioTest htest]
  exact ⟨htests.rule_ne,
    Selection.improves_of_ratioTest hr.toIsValid hrhs htest htests.rule_ne htests.reduced_neg⟩

/-- Every step from a canonical tableau without negative right-hand sides improves it. -/
theorem Steps.improves (h : s.Steps r r') (hr : r.tableau.IsCanonical)
    (hrhs : ∀ i < r.tableau.height, 0 ≤ r.tableau.rhsAt i) : ∃ p, s.Improves r r' p := by
  obtain ⟨p, costs, hnext, hadvance⟩ := h
  obtain ⟨column, rule, precedes, htests, htest⟩ := tests_of_next hr hrhs hnext
  obtain ⟨-, himproves⟩ := improves_of_next hr hrhs hnext
  refine ⟨p, himproves, apply_of_advance hadvance, ?_, fun hstreak => ?_⟩
  · rw [streak_of_advance hadvance]
    simp only [himproves.isDegenerate_iff]
  · exact Selection.isLowest_of_ratioTest hr.toIsValid hrhs htest (htests.reduced_nonneg hstreak)
      (htests.precedes_eq hstreak)

/-- A step keeps the right-hand sides from becoming negative. -/
theorem Steps.rhsAt_nonneg (h : s.Steps r r') (hr : r.tableau.IsCanonical)
    (hrhs : ∀ i < r.tableau.height, 0 ≤ r.tableau.rhsAt i) :
    ∀ i < r'.tableau.height, 0 ≤ r'.tableau.rhsAt i := by
  obtain ⟨p, hp⟩ := h.improves hr hrhs
  rw [(h.isCanonical hr).2.height_eq]
  exact hp.pivot.rhsAt_nonneg hr hp.apply_eq hrhs

/-- A run that begins without negative right-hand sides never has any. -/
theorem rhsAt_nonneg_of_reflTransGen (h : Relation.ReflTransGen s.Steps r r')
    (hr : r.tableau.IsCanonical) (hrhs : ∀ i < r.tableau.height, 0 ≤ r.tableau.rhsAt i) :
    ∀ i < r'.tableau.height, 0 ≤ r'.tableau.rhsAt i := by
  refine (invariant_of_reflTransGen (P := fun t => t.IsCanonical ∧ ∀ i < t.height, 0 ≤ t.rhsAt i)
    (fun r₁ r₂ hstep h₁ => ?_) h ⟨hr, hrhs⟩).2
  exact ⟨(hstep.isCanonical h₁.1).1, hstep.rhsAt_nonneg h₁.1 h₁.2⟩

end Solver

end LinProg
