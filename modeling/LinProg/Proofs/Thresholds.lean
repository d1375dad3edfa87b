import LinProg.Proofs.NearWhole

/-!
# The tests on doubles as thresholds

Every test on a computed value reads the value that is snapped to a nearby fraction. On the doubles
this comes to a comparison of the value itself with an exact bound: the signs with one part in a
thousand million, and being whole with the tolerance of the value. Beyond the bound of a snap, and
among infinite and undefined values, nothing is snapped and the tests are those of the value.
-/

namespace LinProg

namespace Double

open Float.Model Float.Model.UnpackedFloat

variable {v : Float}

/-! ### The sign of the value that is read -/

section

variable (hv : v.isFinite = true)

include hv

/-- A finite double is snapped to zero exactly if it is within the relative tolerance of zero. -/
theorem snap_eq_zero_iff : toRat (Snap.snap v) = 0 ↔ |toRat v| ≤ toRat Snap.relativeTolerance := by
  obtain ⟨hrelative, -, hle⟩ := relativeTolerance_spec
  by_cases hsmall : |toRat v| ≤ 10 ^ 15
  · obtain ⟨-, -, hupper, hone⟩ := tolerance_spec hv hsmall
    have hiff := toRat_snap_eq_intCast_iff hv hsmall 0
    rw [Int.cast_zero, sub_zero] at hiff
    rw [hiff]
    constructor
    · intro h
      rwa [hone (by linarith)] at h
    · intro h
      rwa [hone (by linarith)]
  · rw [snap_of_large fun _ => not_le.1 hsmall]
    have hlarge := not_le.1 hsmall
    refine iff_of_false (fun hzero => ?_) (by linarith)
    rw [hzero, abs_zero] at hlarge
    linarith

theorem snap_nonneg (h : 0 ≤ toRat v) : 0 ≤ toRat (Snap.snap v) := by
  have hbelow : ¬ v < 0 := by rwa [lt_iff_toRat hv isFinite_zero, toRat_zero, not_lt]
  rcases snap_cases hv with heq | ⟨heq, hsmall⟩
  · rwa [heq]
  · rw [heq]
    exact (fraction_spec hv hsmall).2.1 hbelow

theorem snap_nonpos (h : toRat v < 0) : toRat (Snap.snap v) ≤ 0 := by
  have hbelow : v < 0 := by rwa [lt_iff_toRat hv isFinite_zero, toRat_zero]
  rcases snap_cases hv with heq | ⟨heq, hsmall⟩
  · rw [heq]
    exact h.le
  · rw [heq]
    exact (fraction_spec hv hsmall).2.2.1 hbelow

/-- A finite double is snapped to a number above zero exactly if it is above the relative
tolerance. -/
theorem snap_pos_iff : 0 < toRat (Snap.snap v) ↔ toRat Snap.relativeTolerance < toRat v := by
  have hzero := snap_eq_zero_iff hv
  have hpositive := relativeTolerance_pos
  constructor
  · intro hpos
    have hnonneg : 0 ≤ toRat v := le_of_not_gt fun hneg => (snap_nonpos hv hneg).not_gt hpos
    refine lt_of_not_ge fun hle => hpos.ne' (hzero.2 ?_)
    rwa [abs_of_nonneg hnonneg]
  · intro hlt
    have hnonneg : 0 ≤ toRat v := hpositive.le.trans hlt.le
    refine lt_of_le_of_ne (snap_nonneg hv hnonneg) fun heq => hlt.not_ge ?_
    rw [← abs_of_nonneg hnonneg]
    exact hzero.1 heq.symm

/-- A finite double is snapped to a number below zero exactly if it is as far below it. -/
theorem snap_neg_iff : toRat (Snap.snap v) < 0 ↔ toRat v < -toRat Snap.relativeTolerance := by
  have hzero := snap_eq_zero_iff hv
  have hpositive := relativeTolerance_pos
  constructor
  · intro hneg
    have hbelow : toRat v < 0 := lt_of_not_ge fun hge => (snap_nonneg hv hge).not_gt hneg
    refine lt_of_not_ge fun hle => hneg.ne (hzero.2 ?_)
    rw [abs_of_neg hbelow]
    linarith
  · intro hlt
    have hbelow : toRat v < 0 := by linarith
    refine lt_of_le_of_ne (snap_nonpos hv hbelow) fun heq => ?_
    have hle := hzero.1 heq
    rw [abs_of_neg hbelow] at hle
    linarith

end

/-! ### The tests -/

/-- There are three doubles that are not finite. -/
theorem cases_of_not_isFinite (hv : v.isFinite = false) :
    v = infinity ∨ v = negativeInfinity ∨ v = packed .notANumber := by
  rw [isFinite_eq] at hv
  cases hu : unpacked v with
  | infinity s =>
    cases s with
    | negative => exact .inr (.inl (unpacked_inj hu))
    | positive => exact .inl (unpacked_inj hu)
  | notANumber => exact .inr (.inr (unpacked_inj hu))
  | _ => rw [hu] at hv; cases hv

/-- The tolerance, written with the minimum and the maximum of two doubles. -/
theorem tolerance_eq_min (hv : v.isFinite = true) (hsmall : |toRat v| ≤ 10 ^ 15) :
    Snap.tolerance v = min (1e-9 * max 1 v.abs) 1e-6 := by
  obtain ⟨hbound, -, -⟩ := relative_bound_spec hv hsmall rfl
  rw [← relativeTolerance_eq, ← maxTolerance_eq, max_eq isFinite_one (by rwa [isFinite_abs]),
    min_eq hbound maxTolerance_spec.1]
  rfl

section

variable (hv : v.isFinite = true)

include hv

theorem isPositive_iff : Scalar.isPositive v = true ↔ 1e-9 < v := by
  rw [← relativeTolerance_eq, lt_iff_toRat relativeTolerance_spec.1 hv, ← snap_pos_iff hv]
  change decide (0 < Snap.snap v) = true ↔ _
  rw [decide_eq_true_iff, lt_iff_toRat isFinite_zero (isFinite_snap hv), toRat_zero]

theorem isNegative_iff : Scalar.isNegative v = true ↔ v < -1e-9 := by
  rw [← relativeTolerance_eq, lt_iff_toRat hv (isFinite_neg relativeTolerance_spec.1), toRat_neg,
    ← snap_neg_iff hv]
  change decide (Snap.snap v < 0) = true ↔ _
  rw [decide_eq_true_iff, lt_iff_toRat (isFinite_snap hv) isFinite_zero, toRat_zero]

theorem isZero_iff : Scalar.isZero v = true ↔ v.abs ≤ 1e-9 := by
  rw [← relativeTolerance_eq, le_iff_toRat (by rwa [isFinite_abs]) relativeTolerance_spec.1,
    toRat_abs, ← snap_eq_zero_iff hv]
  change (Snap.snap v == 0) = true ↔ _
  rw [beq_iff_toRat (isFinite_snap hv) isFinite_zero, toRat_zero]

theorem isInteger_iff (hsmall : |toRat v| ≤ 10 ^ 15) : Scalar.isInteger v = true ↔
    ∃ n : ℤ, |toRat v - n| ≤ toRat (Snap.tolerance v) := by
  change Arithmetic.isWhole (Snap.snap v) = true ↔ _
  rw [isWhole_iff (isFinite_snap hv)]
  exact exists_congr fun n => toRat_snap_eq_intCast_iff hv hsmall n

theorem isInteger_iff_of_large (hlarge : 10 ^ 15 < |toRat v|) :
    Scalar.isInteger v = true ↔ ∃ n : ℤ, toRat v = n := by
  change Arithmetic.isWhole (Snap.snap v) = true ↔ _
  rw [snap_of_large fun _ => hlarge, isWhole_iff hv]

theorem abs_le_maxMagnitude_iff : v.abs ≤ 1e15 ↔ |toRat v| ≤ 10 ^ 15 := by
  obtain ⟨hmagnitude, hvalue⟩ := maxMagnitude_spec
  rw [← maxMagnitude_eq, le_iff_toRat (by rwa [isFinite_abs]) hmagnitude, toRat_abs, hvalue]

theorem maxMagnitude_lt_abs_iff : 1e15 < v.abs ↔ 10 ^ 15 < |toRat v| := by
  obtain ⟨hmagnitude, hvalue⟩ := maxMagnitude_spec
  rw [← maxMagnitude_eq, lt_iff_toRat hmagnitude (by rwa [isFinite_abs]), toRat_abs, hvalue]

end

/-- What the tests tell of a double, as comparisons of the double itself. -/
structure IsTestedByThresholds (v : Float) : Prop where
  isPositive : Scalar.isPositive v = true ↔ 1e-9 < v
  isNegative : Scalar.isNegative v = true ↔ v < -1e-9
  isZero : Scalar.isZero v = true ↔ v.abs ≤ 1e-9
  /-- Up to the bound of a snap a double is read as whole if an integer lies within its tolerance,
  which is computed in doubles; the distance from the integer is the exact one. -/
  isInteger : v.abs ≤ 1e15 → (Scalar.isInteger v = true ↔
    ∃ n : ℤ, |toRat v - n| ≤ toRat (min (1e-9 * max 1 v.abs) 1e-6))
  /-- Beyond that bound only a double without a fractional part is read as whole. -/
  isInteger_large : v.isFinite = true → 1e15 < v.abs →
    (Scalar.isInteger v = true ↔ ∃ n : ℤ, toRat v = n)
  isInteger_undefined : v.isFinite = false → Scalar.isInteger v = false

theorem isTestedByThresholds_of_not_isFinite (hv : v.isFinite = false) :
    IsTestedByThresholds v := by
  rcases cases_of_not_isFinite hv with rfl | rfl | rfl
  all_goals exact ⟨by decide +kernel, by decide +kernel, by decide +kernel,
    fun hle => absurd hle (by decide +kernel), fun hfinite => absurd hfinite (by decide +kernel),
    fun _ => by decide +kernel⟩

/-- Every test on a double is a comparison with an exact threshold, through the whole continued
fraction of the double and whatever its magnitude, infinite and undefined doubles included. -/
theorem isTestedByThresholds (v : Float) : IsTestedByThresholds v := by
  cases hv : v.isFinite with
  | false => exact isTestedByThresholds_of_not_isFinite hv
  | true =>
    refine ⟨isPositive_iff hv, isNegative_iff hv, isZero_iff hv, fun hle => ?_, fun _ hlt => ?_,
      fun hundefined => ?_⟩
    · rw [abs_le_maxMagnitude_iff hv] at hle
      rw [← tolerance_eq_min hv hle]
      exact isInteger_iff hv hle
    · rw [maxMagnitude_lt_abs_iff hv] at hlt
      exact isInteger_iff_of_large hv hlt
    · rw [hv] at hundefined
      cases hundefined

/-- Values just below zero and just below an integer are read as what they are near to. -/
example : Scalar.isZero (-3e-12 : Float) = true ∧ Scalar.isInteger (1.9999999999 : Float) = true ∧
    Scalar.isNegative (-1e-8 : Float) = true ∧ Scalar.isInteger (1.2 : Float) = false := by
  decide +kernel

end Double

end LinProg
