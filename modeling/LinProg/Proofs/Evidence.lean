import LinProg.Proofs.Run
import LinProg.Proofs.Thresholds

/-!
# The evidence for a verdict on doubles

A run that ends as infeasible names a row, and a run that ends as unbounded names a column. What the
row or column shows is read off the halted tableau: a negative right-hand side without a negative
entry beside it, or a negative reduced cost without a positive entry below it. The rules do not look
for this evidence. They look for a finite ratio, and an entry of the right sign is passed over as
well if its ratio overflows. Then the number that is divided is larger than 2⁹⁹³, or it is not a
number at all; among reduced costs that are undefined a rule may also name a column that has not
been tested. In all other cases the evidence is there.
-/

namespace LinProg

open Scalar

namespace Double

open Float.Model Float.Model.UnpackedFloat

variable {v w : Float}

/-! ### Quotients that do not overflow -/

/-- The double is a number of magnitude up to 2⁹⁹³. -/
def IsModerate (v : Float) : Prop := v.isFinite = true ∧ |toRat v| ≤ 2 ^ 993

instance (v : Float) : Decidable (IsModerate v) :=
  inferInstanceAs (Decidable (v.isFinite = true ∧ |toRat v| ≤ 2 ^ 993))

theorem isDouble_two_pow_1023 : IsDouble (2 ^ 1023) := by
  have hdouble := isDouble_natCast_mul (n := 2 ^ 53) le_rfl (e := 970) (by decide) le_rfl
  rwa [Nat.cast_pow, Nat.cast_two, show (970 : ℤ) = (970 : ℕ) from rfl, zpow_natCast, ← pow_add]
    at hdouble

/-- A finite double over an infinite one is zero. -/
theorem div_infinity_beq_zero {s : Sign} (hv : v.isFinite = true) (hw : unpacked w = .infinity s) :
    (v / w == 0) = true := by
  rw [beq_zero_iff, div_eq, hw]
  rcases unpacked_cases hv with ⟨s', hv'⟩ | ⟨s', m, e, h, hv', -⟩ <;> rw [hv'] <;>
    exact ⟨_, unpacked_packed_zero _⟩

/-- A value that is read as positive or negative is infinite or not small. -/
theorem infinity_or_large (hw : isNegative w = true ∨ isPositive w = true) :
    (∃ s, unpacked w = .infinity s) ∨ w.isFinite = true ∧ 1 / 2 ^ 30 ≤ |toRat w| := by
  obtain ⟨hrelative, hlow, -⟩ := relativeTolerance_spec
  cases hfinite : w.isFinite with
  | false =>
    rcases cases_of_not_isFinite hfinite with rfl | rfl | rfl
    · exact .inl ⟨.positive, rfl⟩
    · exact .inl ⟨.negative, rfl⟩
    · exact absurd hw (by decide +kernel)
  | true =>
    refine .inr ⟨rfl, hlow.trans ?_⟩
    rw [isNegative_iff hfinite, isPositive_iff hfinite, ← relativeTolerance_eq,
      lt_iff_toRat hfinite (isFinite_neg hrelative), toRat_neg,
      lt_iff_toRat hrelative hfinite] at hw
    rcases hw with hneg | hpos
    · rw [abs_of_neg (by linarith [relativeTolerance_pos])]
      linarith
    · exact hpos.le.trans (le_abs_self _)

/-- A moderate number over a value that is read as positive or negative is finite. -/
theorem IsModerate.isFinite_div (hv : IsModerate v)
    (hw : isNegative w = true ∨ isPositive w = true) :
    (v / w).isFinite = true := by
  obtain ⟨hfinite, hle⟩ := hv
  rcases infinity_or_large hw with ⟨s, hinfinity⟩ | ⟨hw', hlarge⟩
  · obtain ⟨s', hzero⟩ := beq_zero_iff.1 (div_infinity_beq_zero hfinite hinfinity)
    rw [isFinite_eq, hzero]
    rfl
  · have hpos : 0 < |toRat w| := lt_of_lt_of_le (by positivity) hlarge
    have hbound : |toRat v / toRat w| ≤ 2 ^ 1023 := by
      rw [abs_div, div_le_iff₀ hpos]
      calc |toRat v| ≤ 2 ^ 993 := hle
        _ = 2 ^ 1023 * (1 / 2 ^ 30) := by
          rw [show 1023 = 993 + 30 from rfl, pow_add, mul_assoc, mul_one_div_cancel (by positivity),
            Rat.mul_one]
        _ ≤ 2 ^ 1023 * |toRat w| := mul_le_mul_of_nonneg_left hlarge (by positivity)
    have hbetween := abs_le.1 hbound
    exact ((rounds_div hfinite hw' (abs_pos.1 hpos)).between isDouble_two_pow_1023.neg
      isDouble_two_pow_1023 hbetween.1 hbetween.2).1

/-- A number that is read as positive is above zero. -/
theorem toRat_pos_of_isPositive (hv : v.isFinite = true) (h : isPositive v = true) :
    0 < toRat v := by
  rw [isPositive_iff hv, ← relativeTolerance_eq, lt_iff_toRat relativeTolerance_spec.1 hv] at h
  exact relativeTolerance_pos.trans h

/-- A quotient that is finite is not below zero if what is divided is not. -/
theorem not_div_lt_zero (hv : v.isFinite = true) (hnonneg : 0 ≤ toRat v) (hw : isPositive w = true)
    (hdiv : (v / w).isFinite = true) : ¬ v / w < 0 := by
  rw [lt_iff_toRat hdiv isFinite_zero, toRat_zero, not_lt]
  rcases infinity_or_large (.inr hw) with ⟨s, hinfinity⟩ | ⟨hw', -⟩
  · have hzero := div_infinity_beq_zero hv hinfinity
    rw [beq_iff_toRat hdiv isFinite_zero, toRat_zero] at hzero
    exact hzero.ge
  · have hpos := toRat_pos_of_isPositive hw' hw
    exact (rounds_div hv hw' hpos.ne').le_toRat hdiv isDouble_zero (div_nonneg hnonneg hpos.le)

/-- A number that is not read as negative is read as at least zero. -/
theorem toRat_correct_nonneg (hv : v.isFinite = true) (h : isNegative v = false) :
    0 ≤ toRat (Scalar.correct v) := by
  have hcorrect : (Scalar.correct v).isFinite = true := isFinite_snap hv
  have hbelow := of_decide_eq_false h
  rwa [lt_iff_toRat hcorrect isFinite_zero, toRat_zero, not_lt] at hbelow

/-- A moderate number is read as a moderate number. -/
theorem IsModerate.correct (hv : IsModerate v) : IsModerate (correct v) := by
  obtain ⟨hfinite, hle⟩ := hv
  refine ⟨isFinite_snap hfinite, ?_⟩
  change |toRat (Snap.snap v)| ≤ _
  rcases snap_cases hfinite with h | ⟨h, hsmall⟩
  · exact h.symm ▸ hle
  · obtain ⟨-, -, -, hword⟩ := fraction_spec hfinite hsmall
    rw [h]
    exact hword.trans (pow_le_pow_right₀ one_le_two (by decide))

/-! ### Values that are defined -/

/-- A value that is defined is read as one that is. -/
theorem correct_ne_notANumber_of_ne (hv : v.isNaN = false) :
    unpacked (Scalar.correct v) ≠ .notANumber := by
  cases hfinite : v.isFinite with
  | true => exact correct_ne_notANumber hfinite
  | false =>
    have hsnap : Snap.snap v = v := snap_of_large fun h => absurd h (by rw [hfinite]; decide)
    change unpacked (Snap.snap v) ≠ _
    rw [hsnap]
    intro hundefined
    change (unpacked v).isNaN = false at hv
    rw [hundefined] at hv
    cases hv

/-- Among doubles that are defined, those that are read as negative are read as less than the
others. -/
theorem separatesNegative_of_isNaN {values : List Float} (h : ∀ v ∈ values, v.isNaN = false) :
    SeparatesNegative values :=
  fun _ _ w hw hneg hnot => lt_of_lt_zero (of_decide_eq_true hneg) (of_decide_eq_false hnot)
    (correct_ne_notANumber_of_ne (h w hw))

/-- A double that is defined and not read as at least zero is read as negative. -/
theorem isNegative_of_not_nonneg (hv : v.isNaN = false) (h : ¬ 0 ≤ Scalar.correct v) :
    isNegative v = true :=
  decide_eq_true (lt_zero_of_not_nonneg h (correct_ne_notANumber_of_ne hv))

end Double

open Double

/-! ### Ratios that are passed over -/

namespace Selection

variable {entries reduced rhs : List Float}

/-- If no ratio of a row can be used, no entry is negative that stands under a moderate reduced
cost. -/
theorem isNegative_eq_false_of_repairRatio
    (h : ∀ r, some r ∈ List.zipWith repairRatio entries reduced → Arithmetic.isFinite r = false)
    {j : ℕ} {entry cost : Float} (hentry : entries[j]? = some entry)
    (hcost : reduced[j]? = some cost) (hmoderate : IsModerate cost) : isNegative entry = false := by
  refine Bool.eq_false_of_not_eq_true fun hneg => ?_
  have hratio : (List.zipWith repairRatio entries reduced)[j]? =
      some (some (cost / entry).abs) := by
    rw [List.getElem?_zipWith, hentry, hcost]
    exact congrArg some (if_pos hneg)
  have hinfinite : (cost / entry).abs.isFinite = false := h _ (List.mem_of_getElem? hratio)
  rw [isFinite_abs, hmoderate.isFinite_div (.inl hneg)] at hinfinite
  cases hinfinite

/-- If no ratio of a column is a limit, no entry is positive that stands beside a moderate
right-hand side which is not negative. -/
theorem isPositive_eq_false_of_growthRatio
    (h : ∀ r, some r ∈ List.zipWith growthRatio entries rhs → limits r = false) {i : ℕ}
    {entry value : Float} (hentry : entries[i]? = some entry) (hvalue : rhs[i]? = some value)
    (hneg : isNegative value = false) (hmoderate : IsModerate value) :
    isPositive entry = false := by
  refine Bool.eq_false_of_not_eq_true fun hpos => ?_
  have hratio : (List.zipWith growthRatio entries rhs)[i]? =
      some (some (correct value / entry)) := by
    rw [List.getElem?_zipWith, hentry, hvalue]
    exact congrArg some (if_pos hpos)
  have hcorrect := hmoderate.correct
  have hnonneg := toRat_correct_nonneg hmoderate.1 hneg
  have hfinite := hcorrect.isFinite_div (.inr hpos)
  have hlimits : limits (correct value / entry) = true := by
    rw [limits, decide_eq_false (not_div_lt_zero hcorrect.1 hnonneg hpos hfinite)]
    exact congrArg (· && true) hfinite
  rw [h _ (List.mem_of_getElem? hratio)] at hlimits
  cases hlimits

end Selection

/-! ### Evidence -/

namespace Tableau

/-- One product that uses one resource, in doubles. -/
def scaledProduct (entry value cost : Float) : Tableau Float where
  rows := [[entry, 1]]
  rhs := [value]
  costs := [cost, 0]
  names := ["x", "s1"]
  basis := ["s1"]

/-- Two resources that a product gives back, with costs whose sum is undefined. -/
def undefinedCosts : Tableau Float where
  rows := [[-10, 1, 0], [-10, 0, 1]]
  rhs := [1, 1]
  costs := [-1, 1e308, -1e308]
  names := ["x", "s1", "s2"]
  basis := ["s1", "s2"]

/-- The row shows that the tableau is infeasible, as far as no reduced cost is too large: its
right-hand side is negative, and none of its entries is that stands under a moderate reduced
cost. -/
structure ShowsInfeasible (t : Tableau Float) (reduced : List Float) (row : Nat) : Prop where
  row_lt : row < t.height
  isNegative_rhs : isNegative (t.rhs.getD row 0) = true
  isNegative_entry : ∀ j < t.width, IsModerate (reduced.getD j 0) →
    isNegative (t.rows.entry row j) = false

/-- The column shows that the tableau is unbounded, as far as no right-hand side is too large: the
tableau is feasible, the reduced cost of the column is negative, and none of its entries is positive
that stands beside a moderate right-hand side. -/
structure ShowsUnbounded (t : Tableau Float) (reduced : List Float) (column : Nat) : Prop where
  column_lt : column < t.width
  isNegative_rhs : ∀ i < t.height, isNegative (t.rhs.getD i 0) = false
  isNegative_reduced : isNegative (reduced.getD column 0) = true
  isPositive_entry : ∀ i < t.height, IsModerate (t.rhs.getD i 0) →
    isPositive (t.rows.entry i column) = false

end Tableau

namespace Solver

variable {s : Solver} {r : Run Float} {costs : ReducedCosts Float}

theorem showsInfeasible_of_halt (hr : r.tableau.IsWellFormed) {row : Nat} {name : String}
    (h : s.next r = .ok (.halt (.infeasible row name), costs)) :
    r.tableau.ShowsInfeasible costs.reduced row := by
  obtain ⟨hcosts, -⟩ := next_cases h
  obtain ⟨hstanding, hrepair⟩ := repair_of_halt h
  obtain ⟨entries, hentries, ⟨-, hratios⟩ | ⟨p, h, -⟩⟩ := Selection.repair_cases hrepair
  · obtain ⟨value, hvalue, hneg⟩ := Standing.negative_of_classify hstanding
    refine ⟨(List.getElem?_eq_some_iff.1 hentries).1, ?_, fun j hj hmoderate => ?_⟩
    · rwa [List.getD_eq_getElem?_getD, hvalue]
    · have hj' : j < entries.length := by
        rwa [hr.length_row entries (List.mem_of_getElem? hentries)]
      have hcost : j < costs.reduced.length := by rwa [ReducedCosts.length_reduced hr hcosts]
      rw [List.getD_eq_getElem _ _ hcost] at hmoderate
      rw [Rows.entry_of_getElem? hentries, List.getD_eq_getElem _ _ hj']
      exact Selection.isNegative_eq_false_of_repairRatio hratios (List.getElem?_eq_getElem hj')
        (List.getElem?_eq_getElem hcost) hmoderate
  · cases h

/-- At a tableau that can be improved, and whose reduced costs are defined, both rules test the
ratios of a column of negative reduced cost. -/
theorem exists_ratioTest_of_select (hstanding :
      Standing.classify r.tableau.rhs costs.reduced = .improvable)
    (hdefined : ∀ v ∈ costs.reduced, v.isNaN = false) {selection : Selection Float}
    (h : s.select r costs .improvable = .ok selection) :
    ∃ column v rule precedes, costs.reduced[column]? = some v ∧ isNegative v = true ∧
      Selection.ratioTest r.tableau column rule precedes = .ok selection := by
  obtain ⟨-, v, hv, hnonneg⟩ := Standing.classify_eq_improvable.1 hstanding
  have hneg : ∃ v ∈ costs.reduced, isNegative v = true :=
    ⟨v, hv, isNegative_of_not_nonneg (hdefined v hv) hnonneg⟩
  rcases select_cases h with ⟨row, hrow, -⟩ | ⟨-, -, columns, -, hbland⟩ | ⟨-, -, hdantzig⟩
  · cases hrow
  · obtain ⟨column, v, hv, hneg, -, htest⟩ := Selection.bland_cases hneg hbland
    exact ⟨column, v, _, _, hv, hneg, htest⟩
  · obtain ⟨column, v, hv, hneg, htest⟩ :=
      Selection.dantzig_cases (separatesNegative_of_isNaN hdefined) hneg hdantzig
    exact ⟨column, v, _, _, hv, hneg, htest⟩

theorem showsUnbounded_of_halt (hr : r.tableau.IsWellFormed) {column : Nat} {name : String}
    (h : s.next r = .ok (.halt (.unbounded column name), costs))
    (hdefined : ∀ v ∈ costs.reduced, v.isNaN = false) :
    r.tableau.ShowsUnbounded costs.reduced column := by
  obtain ⟨hcosts, -⟩ := next_cases h
  obtain ⟨hstanding, hselect⟩ := improve_of_halt h
  obtain ⟨hrhs, -⟩ := Standing.classify_eq_improvable.1 hstanding
  obtain ⟨column', v, rule, precedes, hv, hneg, htest⟩ :=
    exists_ratioTest_of_select hstanding hdefined hselect
  obtain ⟨entries, hentries, ⟨heq, hratios⟩ | ⟨p, heq, -⟩⟩ := Selection.ratioTest_cases htest
  · cases heq
    have hwidth := (List.getElem?_eq_some_iff.1 hv).1
    rw [ReducedCosts.length_reduced hr hcosts] at hwidth
    have hnegative := hr.forall_mem_rhs_iff.1 hrhs
    refine ⟨hwidth, hnegative, by rwa [List.getD_eq_getElem?_getD, hv], fun i hi hmoderate => ?_⟩
    obtain ⟨-, rfl⟩ := Rows.column_eq_ok.1 hentries
    obtain ⟨row, hrow, -⟩ := hr.hasShape.exists_row hi
    have hi' : i < r.tableau.rhs.length := hr.length_rhs ▸ hi
    have hnonneg := hnegative i hi
    rw [List.getD_eq_getElem _ _ hi'] at hmoderate hnonneg
    rw [Rows.entry_of_getElem? hrow]
    refine Selection.isPositive_eq_false_of_growthRatio hratios ?_ (List.getElem?_eq_getElem hi')
      hnonneg hmoderate
    rw [List.getElem?_map, hrow, Option.map_some]
  · cases heq

/-- A run on doubles that ends as infeasible shows the row for it, and a run that ends as unbounded
shows the column, unless some reduced cost of its last tableau is undefined. -/
theorem solve_shows (s : Solver) {t : Tableau Float} {solution : Solution Float}
    (h : (s.solve t).outcome = .ok solution) :
    ReducedCosts.compute solution.tableau = .ok solution.reducedCosts ∧
      (∀ row name, solution.status = .infeasible row name →
        solution.tableau.ShowsInfeasible solution.reducedCosts.reduced row) ∧
      ∀ column name, solution.status = .unbounded column name →
        (∃ v ∈ solution.reducedCosts.reduced, v.isNaN = true) ∨
          solution.tableau.ShowsUnbounded solution.reducedCosts.reduced column := by
  obtain ⟨ht, r, hend⟩ := run_eq_ok h
  have hr := hend.isWellFormed ht
  have hnext := hend.next_eq
  rw [hend.tableau_eq]
  refine ⟨(next_cases hnext).1, fun row name hstatus => ?_, fun column name hstatus => ?_⟩
  · rw [hstatus] at hnext
    exact showsInfeasible_of_halt hr hnext
  · rw [hstatus] at hnext
    by_cases hdefined : ∃ v ∈ solution.reducedCosts.reduced, v.isNaN = true
    · exact .inl hdefined
    · refine .inr (showsUnbounded_of_halt hr hnext fun v hv => ?_)
      exact Bool.eq_false_of_not_eq_true fun hnan => hdefined ⟨v, hv, hnan⟩

/-- A demand for a product that no resource can meet is shown to be infeasible, and a product that
gives back its resource is shown to be unbounded. -/
theorem solve_shows_scaledProduct :
    (∃ solution, (({} : Solver).solve (.scaledProduct 1 (-1) 1)).outcome = .ok solution ∧
      solution.status = .infeasible 0 "s1" ∧
      solution.tableau.ShowsInfeasible solution.reducedCosts.reduced 0) ∧
    ∃ solution, (({} : Solver).solve (.scaledProduct (-1) 1 1)).outcome = .ok solution ∧
      solution.status = .unbounded 0 "x" ∧
      solution.tableau.ShowsUnbounded solution.reducedCosts.reduced 0 := by
  constructor
  · have hrun : (·.status) <$> (({} : Solver).solve (.scaledProduct 1 (-1) 1)).outcome =
        .ok (.infeasible 0 "s1") := by decide +kernel
    obtain ⟨solution, hsolve, hstatus⟩ := Outcome.map_eq_ok.1 hrun
    exact ⟨solution, hsolve, hstatus, (solve_shows _ hsolve).2.1 _ _ hstatus⟩
  · have hrun : (fun solution => (solution.status,
        solution.reducedCosts.reduced.any Float.isNaN)) <$>
          (({} : Solver).solve (.scaledProduct (-1) 1 1)).outcome =
        .ok (.unbounded 0 "x", false) := by decide +kernel
    obtain ⟨solution, hsolve, hrun⟩ := Outcome.map_eq_ok.1 hrun
    obtain ⟨hstatus, hdefined⟩ := Prod.mk.inj hrun
    refine ⟨solution, hsolve, hstatus, ((solve_shows _ hsolve).2.2 _ _ hstatus).resolve_left ?_⟩
    rintro ⟨v, hv, hnan⟩
    exact List.any_eq_false.1 hdefined v hv hnan

/-- A verdict does not always show its evidence. The ratio of a large cost to a small entry
overflows, so a row is found infeasible although it has a negative entry; the ratio of a large
right-hand side to a small entry does, so a column is found unbounded although it has a positive
entry; and among reduced costs that are undefined a column is found unbounded whose reduced cost is
not negative. -/
theorem not_shows_scaledProduct :
    (∃ solution, (({} : Solver).solve (.scaledProduct (-0.001) (-0.001) (-1e306))).outcome =
        .ok solution ∧ solution.status = .infeasible 0 "s1" ∧
      isNegative (solution.tableau.rows.entry 0 0) = true) ∧
    (∃ solution, (({} : Solver).solve (.scaledProduct 0.001 1e306 1)).outcome =
        .ok solution ∧ solution.status = .unbounded 0 "x" ∧
      isPositive (solution.tableau.rows.entry 0 0) = true) ∧
    ∃ solution, (({} : Solver).solve .undefinedCosts).outcome = .ok solution ∧
      solution.status = .unbounded 0 "x" ∧
      isNegative (solution.reducedCosts.reduced.getD 0 0) = false := by
  have hinfeasible : (fun solution => (solution.status,
      isNegative (solution.tableau.rows.entry 0 0))) <$>
        (({} : Solver).solve (.scaledProduct (-0.001) (-0.001) (-1e306))).outcome =
      .ok (.infeasible 0 "s1", true) := by decide +kernel
  have hunbounded : (fun solution => (solution.status,
      isPositive (solution.tableau.rows.entry 0 0))) <$>
        (({} : Solver).solve (.scaledProduct 0.001 1e306 1)).outcome =
      .ok (.unbounded 0 "x", true) := by decide +kernel
  have hundefined : (fun solution => (solution.status,
      isNegative (solution.reducedCosts.reduced.getD 0 0))) <$>
        (({} : Solver).solve .undefinedCosts).outcome = .ok (.unbounded 0 "x", false) := by
    decide +kernel
  obtain ⟨solution, hsolve, h⟩ := Outcome.map_eq_ok.1 hinfeasible
  obtain ⟨solution', hsolve', h'⟩ := Outcome.map_eq_ok.1 hunbounded
  obtain ⟨solution'', hsolve'', h''⟩ := Outcome.map_eq_ok.1 hundefined
  exact ⟨⟨solution, hsolve, Prod.mk.inj h⟩, ⟨solution', hsolve', Prod.mk.inj h'⟩,
    solution'', hsolve'', Prod.mk.inj h''⟩

end Solver

end LinProg
