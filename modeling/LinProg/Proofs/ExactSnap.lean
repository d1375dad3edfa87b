import LinProg.Arithmetic.Exact
import LinProg.Proofs.BestApproximation

/-!
# Snapping rational numbers

In exact arithmetic the approximating fraction of a number is a best approximation of denominator at
most ten thousand. The bound on the number of terms is never reached, since the denominators grow at
least like the Fibonacci numbers; a fractional part that is taken for zero would have led to a
larger denominator; and up to a magnitude of 10¹⁴ no numerator leaves the words. So snapping keeps
the order of numbers: best approximations are in the order of the numbers, and the tolerance changes
by no more than the number does.
-/

namespace LinProg

namespace Snap

/-! ### The continued fraction -/

/-- One term of the continued fraction of a remainder that is not negative. -/
theorem refine_succ {r : ℚ} (hr : 0 ≤ r) (terms : ℕ) (c : Convergents) :
    refine (terms + 1) r c =
      if admits c ⌊r⌋ then
        if r - ⌊r⌋ < 1 / 4503599627370496 then c.next ⌊r⌋
        else refine terms (1 / (r - ⌊r⌋)) (c.next ⌊r⌋)
      else c := by
  have hterm : Arithmetic.truncate (Arithmetic.floor r) = ⌊r⌋ := by
    have hfloor : ¬ (⌊r⌋ : ℚ) < 0 := not_lt.2 (by exact_mod_cast Int.floor_nonneg.2 hr)
    exact (if_neg hfloor).trans (Rat.floor_intCast r.floor)
  rw [refine]
  dsimp only
  rw [hterm]
  rfl

theorem abs_eq (v : ℚ) : Arithmetic.abs v = |v| := by
  rcases lt_or_ge v 0 with hneg | hnonneg
  · exact (if_pos hneg).trans (abs_of_neg hneg).symm
  · exact (if_neg (not_lt.2 hnonneg)).trans (abs_of_nonneg hnonneg).symm

end Snap

namespace Convergents

open Snap

variable {c : Convergents} {v r : ℚ}

namespace IsOf

variable (h : c.IsOf v r)

include h

/-- A convergent of small denominator is admitted: up to a value of 10¹⁴ its numerator fits in a
word. -/
theorem admits_of_le (hv : v ≤ 100000000000000) (hle : (c.next ⌊r⌋).denominator ≤ maxDenominator) :
    admits c ⌊r⌋ = true := by
  have hfloor := h.one_le_floor
  obtain ⟨hnumerator, hdenominator⟩ := h.next_nonneg
  have hle' : (c.next ⌊r⌋).denominator ≤ 10000 := hle
  have hbound : (c.next ⌊r⌋).numerator ≤ 1000000000000000001 := by
    have hbelow := h.numerator_next_le
    have hdenominator' : (0 : ℚ) < (c.next ⌊r⌋).denominator := by exact_mod_cast hdenominator
    have hle'' : ((c.next ⌊r⌋).denominator : ℚ) ≤ 10000 := by exact_mod_cast hle'
    have hproduct : v * (c.next ⌊r⌋).denominator ≤ 100000000000000 * 10000 :=
      (mul_le_mul_of_nonneg_right hv hdenominator'.le).trans
        (mul_le_mul_of_nonneg_left hle'' (by norm_num))
    have hsum : ((c.next ⌊r⌋).numerator : ℚ) ≤ 1000000000000000001 := by linarith
    exact_mod_cast hsum
  have hterm := mul_nonneg (zero_le_one.trans hfloor) h.numerator_nonneg
  have hterm' := mul_nonneg (zero_le_one.trans hfloor) h.denominator_pos.le
  have hprevious := h.previousNumerator_nonneg
  have hprevious' := h.previousDenominator_nonneg
  have hnext : (c.next ⌊r⌋).numerator = ⌊r⌋ * c.numerator + c.previousNumerator := rfl
  have hnext' : (c.next ⌊r⌋).denominator = ⌊r⌋ * c.denominator + c.previousDenominator := rfl
  simp only [admits, Bool.and_eq_true, fitsWord_iff, decide_eq_true_iff]
  refine ⟨⟨⟨⟨?_, ?_⟩, ?_⟩, ?_⟩, hle⟩ <;> constructor <;> linarith

/-- If the fractional part that is left is taken for zero, the next denominator is too large. -/
theorem isBest_of_lt_resolution {f : ℚ} (hr : r = 1 / f) (hpos : 0 < f)
    (hlt : f < 1 / 4503599627370496) (hle : c.denominator ≤ 10000) :
    IsBest 10000 v (c.numerator / c.denominator) := by
  have hlarge : (4503599627370496 : ℤ) ≤ ⌊r⌋ := by
    rw [hr, Int.le_floor, le_div_iff₀ hpos]
    push_cast
    linarith
  refine h.isBest ?_ hle
  have hterm : 4503599627370496 * 1 ≤ ⌊r⌋ * c.denominator :=
    mul_le_mul hlarge h.denominator_pos (by norm_num) (by linarith)
  have hprevious := h.previousDenominator_nonneg
  have hnext : (c.next ⌊r⌋).denominator = ⌊r⌋ * c.denominator + c.previousDenominator := rfl
  push_cast
  linarith

omit h

/-- The continued fraction ends with a best approximation. -/
theorem isBest_refine (h : c.IsOf v r) (hv : v ≤ 100000000000000) (hle : c.denominator ≤ 10000)
    {n terms : ℕ} (hgrown : c.IsGrown n) (hterms : terms + n = 63) :
    IsBest 10000 v ((refine terms r c).numerator / (refine terms r c).denominator) := by
  induction terms generalizing c r n with
  | zero =>
    -- so many terms are never needed
    obtain rfl : n = 63 := by omega
    have hfib : Nat.fib 21 ≤ Nat.fib (63 + 1) := Nat.fib_mono (by norm_num)
    have hvalue : Nat.fib 21 = 10946 := by decide
    have hlatest := hgrown.denominator_ge
    omega
  | succ terms ih =>
    rw [refine_succ (zero_le_one.trans h.one_le)]
    split
    · next hadmits =>
      have hle' : (c.next ⌊r⌋).denominator ≤ 10000 := by
        simp only [admits, Bool.and_eq_true, decide_eq_true_iff] at hadmits
        exact hadmits.2
      have hfraction : 0 ≤ r - ⌊r⌋ := sub_nonneg.2 (Int.floor_le r)
      split
      · next hlt =>
        rcases hfraction.eq_or_lt with hzero | hpos
        · have hvalue := h.next_eq hzero.symm
          rw [← hvalue]
          refine .refl ?_
          have hden : (v.den : ℤ) ≤ (c.next ⌊r⌋).denominator := by
            rw [hvalue, ← Rat.divInt_eq_div]
            exact Int.le_of_dvd h.next_nonneg.2 (Rat.den_dvd _ _)
          exact_mod_cast hden.trans hle'
        · exact (h.next hpos).isBest_of_lt_resolution rfl hpos hlt hle'
      · next hge =>
        have hpos : 0 < r - ⌊r⌋ := lt_of_lt_of_le (by norm_num) (not_lt.1 hge)
        exact ih (h.next hpos) hle' (hgrown.next h.one_le_floor) (by omega)
    · next hrefused =>
      refine h.isBest ?_ hle
      by_contra hsmall
      exact hrefused (h.admits_of_le hv (not_lt.1 hsmall))

end IsOf

/-- The first convergent is the integer part. -/
theorem isOf_first (hv : 0 ≤ v) (hfraction : 0 < v - ⌊v⌋) :
    (seed.next ⌊v⌋).IsOf v (1 / (v - ⌊v⌋)) where
  previousNumerator_nonneg := zero_le_one
  numerator_nonneg := by
    have hfloor := Int.floor_nonneg.2 hv
    rw [Convergents.next, seed]
    linarith
  previousDenominator_nonneg := le_rfl
  denominator_pos := by simp [Convergents.next, seed]
  determinant_eq := by simp [determinant_next, determinant_seed]
  one_le := by
    rw [le_div_iff₀ hfraction, one_mul]
    linarith [Int.lt_floor_add_one v]
  eq := by
    simp only [Convergents.next, seed, mul_one, mul_zero, zero_add, add_zero, Int.cast_one,
      Int.cast_zero]
    field_simp
    ring

end Convergents

namespace Snap

variable {v w : ℚ}

/-- The first term of a magnitude up to 10¹⁴ is admitted. -/
theorem admits_first (hv : 0 ≤ v) (hle : v ≤ 100000000000000) : admits .seed ⌊v⌋ = true := by
  have hfloor : ⌊v⌋ ≤ 100000000000000 := by
    exact_mod_cast (Int.floor_le v).trans hle
  exact admits_seed (Int.floor_nonneg.2 hv) (hfloor.trans (by norm_num))

/-- The continued fraction of a magnitude ends with a best approximation. -/
theorem isBest_refine_seed (hv : 0 ≤ v) (hle : v ≤ 100000000000000) :
    IsBest 10000 v
      ((refine maxTerms v .seed).numerator / (refine maxTerms v .seed).denominator) := by
  have hnumerator : (Convergents.seed.next ⌊v⌋).numerator = ⌊v⌋ := by
    simp [Convergents.next, Convergents.seed]
  have hdenominator : (Convergents.seed.next ⌊v⌋).denominator = 1 := by
    simp [Convergents.next, Convergents.seed]
  have hfraction : 0 ≤ v - ⌊v⌋ := sub_nonneg.2 (Int.floor_le v)
  rw [maxTerms, refine_succ hv, if_pos (admits_first hv hle)]
  split
  · next hlt =>
    rcases hfraction.eq_or_lt with hzero | hpos
    · have hwhole : (v : ℚ) = ⌊v⌋ := by linarith
      have hvalue : ((Convergents.seed.next ⌊v⌋).numerator : ℚ) /
          (Convergents.seed.next ⌊v⌋).denominator = v := by
        rw [hnumerator, hdenominator, Int.cast_one, div_one, ← hwhole]
      rw [hvalue]
      refine .refl ?_
      rw [hwhole, Rat.den_intCast]
      norm_num
    · exact (Convergents.isOf_first hv hpos).isBest_of_lt_resolution rfl hpos hlt (by omega)
  · next hge =>
    have hpos : 0 < v - ⌊v⌋ := lt_of_lt_of_le (by norm_num) (not_lt.1 hge)
    refine (Convergents.isOf_first hv hpos).isBest_refine hle (by omega) (n := 0) ⟨?_, ?_⟩ rfl
    · simp [Convergents.next, Convergents.seed]
    · simp [hdenominator]

/-- The terms after the first one are at least one, so a denominator stays positive. -/
theorem denominator_refine_pos {r : ℚ} (hr : 1 ≤ r) {c : Convergents} (hc : 0 < c.denominator)
    (hprevious : 0 ≤ c.previousDenominator) (terms : ℕ) : 0 < (refine terms r c).denominator := by
  induction terms generalizing r c with
  | zero => exact hc
  | succ terms ih =>
    have hfloor : 1 ≤ ⌊r⌋ := Int.le_floor.2 (by exact_mod_cast hr)
    have hnext : 0 < (c.next ⌊r⌋).denominator :=
      add_pos_of_pos_of_nonneg (mul_pos (zero_lt_one.trans_le hfloor) hc) hprevious
    rw [refine_succ (zero_le_one.trans hr)]
    split
    · split
      · exact hnext
      · next hge =>
        have hpos : 0 < r - ⌊r⌋ := lt_of_lt_of_le (by norm_num) (not_lt.1 hge)
        refine ih ?_ hnext hc.le
        rw [le_div_iff₀ hpos, one_mul]
        linarith [Int.lt_floor_add_one r]
    · exact hc

/-- The continued fraction of a magnitude has a denominator. -/
theorem denominator_refine_seed_ne_zero (hv : 0 ≤ v) (hle : v ≤ 100000000000000) :
    (refine maxTerms v .seed).denominator ≠ 0 := by
  have hdenominator : (Convergents.seed.next ⌊v⌋).denominator = 1 := by
    simp [Convergents.next, Convergents.seed]
  have hfraction : 0 ≤ v - ⌊v⌋ := sub_nonneg.2 (Int.floor_le v)
  rw [maxTerms, refine_succ hv, if_pos (admits_first hv hle)]
  split
  · rw [hdenominator]
    exact one_ne_zero
  · next hge =>
    have hpos : 0 < v - ⌊v⌋ := lt_of_lt_of_le (by norm_num) (not_lt.1 hge)
    refine (denominator_refine_pos ?_ (hdenominator.symm ▸ zero_lt_one) le_rfl 63).ne'
    rw [le_div_iff₀ hpos, one_mul]
    linarith [Int.lt_floor_add_one v]

/-- The fraction that approximates a number. -/
def fraction (v : ℚ) : ℚ := (approximate v).1 / (approximate v).2

/-- The approximating fraction is a best approximation. -/
theorem isBest_fraction (hv : |v| ≤ 100000000000000) : IsBest 10000 v (fraction v) := by
  have hbest := isBest_refine_seed (abs_nonneg v) hv
  rw [fraction, approximate_eq (abs_eq v ▸ denominator_refine_seed_ne_zero (abs_nonneg v) hv),
    abs_eq]
  dsimp only
  split
  · next hneg =>
    have hturned := hbest.neg
    rw [abs_of_neg hneg, neg_neg] at hturned
    rwa [Int.cast_neg, neg_div, abs_of_neg hneg]
  · next hnonneg =>
    rwa [abs_of_nonneg (not_lt.1 hnonneg)] at hbest ⊢

/-- The approximating fraction of the negated value is the negated fraction. -/
theorem fraction_neg (hv : |v| ≤ 100000000000000) : fraction (-v) = -fraction v := by
  rcases eq_or_ne v 0 with rfl | hne
  · have hzero := (isBest_fraction (v := 0) (by norm_num)).eq_of_den_le (by norm_num)
    rw [neg_zero, hzero, neg_zero]
  · have hdenominator := denominator_refine_seed_ne_zero (abs_nonneg v) hv
    rw [fraction, fraction, approximate_eq (by rwa [abs_eq, abs_neg]),
      approximate_eq (by rwa [abs_eq]), abs_eq, abs_eq, abs_neg]
    dsimp only
    rcases hne.lt_or_gt with hneg | hpos
    · rw [if_neg (not_lt.2 (neg_nonneg.2 hneg.le)), if_pos hneg, Int.cast_neg, neg_div, neg_neg]
    · rw [if_pos (neg_neg_of_pos hpos), if_neg (not_lt.2 hpos.le), Int.cast_neg, neg_div]

/-- Approximating fractions are in the order of the numbers. -/
theorem fraction_mono (hv : |v| ≤ 100000000000000) (hw : |w| ≤ 100000000000000) (h : v ≤ w) :
    fraction v ≤ fraction w := by
  rcases h.eq_or_lt with rfl | hlt
  · exact le_rfl
  · exact (isBest_fraction hv).le_of_lt (isBest_fraction hw) hlt

/-! ### The tolerance -/

theorem tolerance_eq (v : ℚ) :
    tolerance v = min (1 / 1000000000 * max 1 |v|) (1 / 1000000) := by
  have hbound : (if Arithmetic.abs v < 1 then 1 else Arithmetic.abs v) = max 1 |v| := by
    rw [abs_eq]
    split
    · next hlt => exact (max_eq_left hlt.le).symm
    · next hge => exact (max_eq_right (not_lt.1 hge)).symm
  have htolerance : tolerance v =
      if (1 / 1000000 : ℚ) < 1 / 1000000000 * max 1 |v| then 1 / 1000000
      else 1 / 1000000000 * max 1 |v| := by
    rw [← hbound]
    rfl
  rw [htolerance]
  split
  · next hlt => exact (min_eq_right hlt.le).symm
  · next hge => exact (min_eq_left (not_lt.1 hge)).symm

theorem tolerance_nonneg (v : ℚ) : 0 ≤ tolerance v := by
  rw [tolerance_eq]
  have hmax : 0 ≤ max 1 |v| := zero_le_one.trans (le_max_left _ _)
  exact le_min (mul_nonneg (by norm_num) hmax) (by norm_num)

theorem tolerance_neg (v : ℚ) : tolerance (-v) = tolerance v := by
  rw [tolerance_eq, tolerance_eq, abs_neg]

/-- The tolerance changes by no more than the number. -/
theorem tolerance_le_add (v w : ℚ) : tolerance v ≤ tolerance w + |v - w| := by
  have hmagnitude : |v| ≤ |w| + |v - w| := by
    have htriangle := abs_add_le w (v - w)
    rwa [add_sub_cancel] at htriangle
  have hdistance := abs_nonneg (v - w)
  have hmax : max 1 |v| ≤ max 1 |w| + |v - w| := by
    refine max_le ?_ ?_
    · linarith [le_max_left 1 |w|]
    · linarith [le_max_right 1 |w|]
  rw [tolerance_eq, tolerance_eq, ← min_add_add_right]
  refine min_le_min ?_ ?_
  · linarith
  · linarith

/-! ### Snapping -/

/-- Up to a magnitude of 10¹⁴ a number is snapped to its approximating fraction if that is within
the tolerance. -/
theorem snap_eq (hv : |v| ≤ 100000000000000) :
    snap v = if |v - fraction v| ≤ tolerance v then fraction v else v := by
  have hsmall : ¬ (1000000000000000 : ℚ) < |v| := not_lt.2 (hv.trans (by norm_num))
  have hguard : (!Arithmetic.isFinite v || decide (maxMagnitude < Arithmetic.abs v)) = false := by
    rw [abs_eq]
    exact (Bool.false_or _).trans (decide_eq_false hsmall)
  rw [snap, hguard, if_neg Bool.false_ne_true]
  dsimp only
  rw [abs_eq]
  rfl

theorem abs_snap_sub_le (hv : |v| ≤ 100000000000000) : |snap v - v| ≤ tolerance v := by
  rw [snap_eq hv]
  split
  · next hle => rwa [abs_sub_comm]
  · rw [sub_self, abs_zero]
    exact tolerance_nonneg v

theorem snap_neg (hv : |v| ≤ 100000000000000) : snap (-v) = -snap v := by
  have herror : |-v - -fraction v| = |v - fraction v| := by rw [← abs_neg, neg_sub_neg, neg_sub]
  rw [snap_eq (by rwa [abs_neg]), snap_eq hv, fraction_neg hv, tolerance_neg, herror,
    apply_ite Neg.neg]

/-- A fraction of small denominator is not changed. -/
theorem snap_of_den_le (hv : |v| ≤ 100000000000000) (hden : v.den ≤ 10000) : snap v = v := by
  rw [snap_eq hv, (isBest_fraction hv).eq_of_den_le hden, ite_self]

theorem abs_fraction_le (hv : |v| ≤ 100000000000000) : |fraction v| ≤ 100000000000000 := by
  obtain ⟨hlow, hhigh⟩ := abs_le.1 hv
  have hbound : |(100000000000000 : ℚ)| ≤ 100000000000000 := by norm_num
  have htop : fraction 100000000000000 = 100000000000000 :=
    (isBest_fraction hbound).eq_of_den_le (by norm_num)
  have hle := fraction_mono hv hbound hhigh
  have hge := fraction_mono (v := -100000000000000) (by norm_num) hv hlow
  rw [fraction_neg hbound, htop] at hge
  rw [htop] at hle
  exact abs_le.2 ⟨hge, hle⟩

theorem snap_snap (hv : |v| ≤ 100000000000000) : snap (snap v) = snap v := by
  rw [snap_eq hv]
  split
  · exact snap_of_den_le (abs_fraction_le hv) (isBest_fraction hv).den_le
  · next hfar => rw [snap_eq hv, if_neg hfar]

theorem snap_mono (hv : |v| ≤ 100000000000000) (hw : |w| ≤ 100000000000000) (h : v ≤ w) :
    snap v ≤ snap w := by
  have hfractions := fraction_mono hv hw h
  have hbest := isBest_fraction hv
  have hbest' := isBest_fraction hw
  have hdistance : |v - w| = w - v := by rw [abs_sub_comm, abs_of_nonneg (sub_nonneg.2 h)]
  have hlipschitz := tolerance_le_add v w
  have hlipschitz' := tolerance_le_add w v
  rw [abs_sub_comm, hdistance] at hlipschitz'
  rw [hdistance] at hlipschitz
  rw [snap_eq hv, snap_eq hw]
  split
  · next hnear =>
    split
    · exact hfractions
    · next hfar =>
      -- a fraction beyond `w` would be near enough to `w` too, or lie before the one of `w`
      by_contra hlt
      have hlt : w < fraction v := not_le.1 hlt
      rcases hfractions.eq_or_lt with heq | hless
      · rw [← heq, abs_sub_comm, abs_of_pos (sub_pos.2 hlt)] at hfar
        rw [abs_sub_comm, abs_of_pos (sub_pos.2 (h.trans_lt hlt))] at hnear
        exact hfar (by linarith)
      · exact hbest'.not_above _ hbest.den_le hlt hless
  · next hfar =>
    split
    · next hnear =>
      by_contra hlt
      have hlt : fraction w < v := not_le.1 hlt
      rcases hfractions.eq_or_lt with heq | hless
      · rw [heq, abs_of_pos (sub_pos.2 hlt)] at hfar
        rw [abs_of_pos (sub_pos.2 (hlt.trans_le h))] at hnear
        exact hfar (by linarith)
      · exact hbest.not_below _ hbest'.den_le hless hlt
    · exact h

/-- Snapping keeps the order of two numbers, it changes nothing when it is repeated, it turns with
the sign, and it moves a number by no more than the tolerance. So numbers that have been snapped
never contradict the order or the sign of the numbers themselves. -/
theorem snap_keeps_order (hv : |v| ≤ 100000000000000) (hw : |w| ≤ 100000000000000) :
    (v ≤ w → snap v ≤ snap w) ∧ snap (snap v) = snap v ∧ snap (-v) = -snap v ∧
      |snap v - v| ≤ min (1 / 1000000000 * max 1 |v|) (1 / 1000000) ∧
      (snap v < snap w → v < w) ∧ (snap v < 0 → v < 0) ∧ (0 < snap v → 0 < v) := by
  have hzero : |(0 : ℚ)| ≤ 100000000000000 := by norm_num
  have hsnap : snap (0 : ℚ) = 0 := snap_of_den_le hzero (by norm_num)
  refine ⟨snap_mono hv hw, snap_snap hv, snap_neg hv, ?_, fun hlt => ?_, fun hlt => ?_,
    fun hlt => ?_⟩
  · rw [← tolerance_eq]
    exact abs_snap_sub_le hv
  · by_contra hge
    exact absurd (snap_mono hw hv (not_lt.1 hge)) (not_le.2 hlt)
  · by_contra hge
    have hmono := snap_mono hzero hv (not_lt.1 hge)
    rw [hsnap] at hmono
    exact absurd hlt (not_lt.2 hmono)
  · by_contra hge
    have hmono := snap_mono hv hzero (not_lt.1 hge)
    rw [hsnap] at hmono
    exact absurd hlt (not_lt.2 hmono)

/-- A number just below a third is snapped to the third, and a third is snapped to nothing else. -/
theorem snap_keeps_order_third :
    let v : ℚ := 333333333333 / 1000000000000
    let w : ℚ := 1 / 3
    |v| ≤ 100000000000000 ∧ |w| ≤ 100000000000000 ∧ v < w ∧ snap v = 1 / 3 ∧ snap v ≤ snap w ∧
      snap (snap v) = snap v ∧ snap (-v) = -snap v ∧ |snap v - v| ≤ 1 / 1000000 := by
  intro v w
  have hv : |v| ≤ 100000000000000 := by norm_num [v, abs_of_pos]
  have hw : |w| ≤ 100000000000000 := by norm_num [w, abs_of_pos]
  have hlt : v < w := by norm_num [v, w]
  obtain ⟨hmono, hrepeat, hneg, hnear, -⟩ := snap_keeps_order hv hw
  exact ⟨hv, hw, hlt, by decide +kernel, hmono hlt.le, hrepeat, hneg,
    hnear.trans (min_le_right _ _)⟩

end Snap

end LinProg
