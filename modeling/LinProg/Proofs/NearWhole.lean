import LinProg.Proofs.WholePart
import LinProg.Proofs.Words

/-!
# Doubles that are snapped to whole numbers

Near a whole number the continued fraction of a double has that number as its first or its second
convergent, and the denominator after it is too large; so the double is snapped to the whole number
if it lies within its tolerance of it. Conversely a double that is snapped to a whole number lies
that near to it, since their difference is not rounded. The fraction of a double within the bound of
a snap always has a denominator, so it is finite, and it never lies across zero.
-/

namespace LinProg

namespace Double

open Float.Model Float.Model.UnpackedFloat

variable {v w : Float}

/-! ### The bounds of a snap -/

theorem isDouble_two_pow_inv {k : ℕ} (hk : k ≤ 1074) : IsDouble (1 / 2 ^ k) := by
  have hdouble := isDouble_intCast_mul (n := 1) (by decide) (e := -k) (by omega) (by omega)
  rwa [Int.cast_one, Rat.one_mul, zpow_neg, zpow_natCast, ← one_div] at hdouble

/-- The reciprocal of a whole number between two powers of two lies between their reciprocals. -/
theorem one_div_ofInt_spec {n : ℤ} {j k : ℕ} (hj : 2 ^ j ≤ n) (hk : n ≤ 2 ^ k) (hk' : k ≤ 53) :
    (1 / Float.ofInt n).isFinite = true ∧ 1 / 2 ^ k ≤ toRat (1 / Float.ofInt n) ∧
      toRat (1 / Float.ofInt n) ≤ 1 / 2 ^ j := by
  have hpos : 0 < n := lt_of_lt_of_le (by positivity) hj
  have hjk : (2 : ℤ) ^ j ≤ 2 ^ k := hj.trans hk
  have hjk' : j ≤ k := (Nat.pow_le_pow_iff_right (by decide : 1 < 2)).1 (by exact_mod_cast hjk)
  have hbits : (2 : ℤ) ^ k ≤ 2 ^ 53 := pow_le_pow_right₀ (by decide) hk'
  obtain ⟨hn, hvalue⟩ := toRat_ofInt (n := n) (by omega)
  have hrounds := rounds_div isFinite_one hn (by rw [hvalue]; exact_mod_cast hpos.ne')
  rw [toRat_one, hvalue] at hrounds
  refine hrounds.between (isDouble_two_pow_inv (by omega)) (isDouble_two_pow_inv (by omega)) ?_ ?_
  · exact one_div_le_one_div_of_le (by exact_mod_cast hpos) (by exact_mod_cast hk)
  · exact one_div_le_one_div_of_le (by positivity) (by exact_mod_cast hj)

theorem relativeTolerance_eq : (Snap.relativeTolerance : Float) = 1e-9 := by decide +kernel

theorem maxTolerance_eq : (Snap.maxTolerance : Float) = 1e-6 := by decide +kernel

theorem maxMagnitude_eq : (Snap.maxMagnitude : Float) = 1e15 := by decide +kernel

theorem relativeTolerance_spec : (Snap.relativeTolerance : Float).isFinite = true ∧
    1 / 2 ^ 30 ≤ toRat Snap.relativeTolerance ∧ toRat Snap.relativeTolerance ≤ 1 / 2 ^ 29 :=
  one_div_ofInt_spec (by decide) (by decide) (by decide)

theorem relativeTolerance_pos : 0 < toRat Snap.relativeTolerance :=
  lt_of_lt_of_le (by positivity) relativeTolerance_spec.2.1

theorem maxTolerance_spec : (Snap.maxTolerance : Float).isFinite = true ∧
    1 / 2 ^ 20 ≤ toRat Snap.maxTolerance ∧ toRat Snap.maxTolerance ≤ 1 / 2 ^ 19 :=
  one_div_ofInt_spec (by decide) (by decide) (by decide)

theorem resolution_spec :
    (Snap.resolution : Float).isFinite = true ∧ toRat Snap.resolution = 1 / 2 ^ 52 := by
  obtain ⟨hfinite, hge, hle⟩ :=
    one_div_ofInt_spec (n := 4503599627370496) (j := 52) (k := 52) (by decide)
      (by decide) (by decide)
  exact ⟨hfinite, le_antisymm hle hge⟩

theorem maxMagnitude_spec :
    (Snap.maxMagnitude : Float).isFinite = true ∧ toRat Snap.maxMagnitude = 10 ^ 15 := by
  obtain ⟨hfinite, hvalue⟩ := toRat_ofInt (n := 1000000000000000) (by decide)
  exact ⟨hfinite, hvalue.trans (by norm_num)⟩

/-- The tolerance before it is cut off. -/
theorem relative_bound_spec (hv : v.isFinite = true) (hsmall : |toRat v| ≤ 10 ^ 15) {bound : Float}
    (hbound : Snap.relativeTolerance * (if v.abs < 1 then 1 else v.abs) = bound) :
    bound.isFinite = true ∧ 0 ≤ toRat bound ∧
      (|toRat v| < 1 → toRat bound = toRat Snap.relativeTolerance) := by
  obtain ⟨hrelative, hlow, hhigh⟩ := relativeTolerance_spec
  have habs : v.abs.isFinite = true := by rwa [isFinite_abs]
  rw [← hbound]
  split
  · rw [mul_one hrelative]
    exact ⟨hrelative, le_trans (by positivity) hlow, fun _ => rfl⟩
  · next hnot =>
    rw [lt_iff_toRat habs isFinite_one, toRat_abs, toRat_one] at hnot
    have hrounds := rounds_mul hrelative habs
    rw [toRat_abs] at hrounds
    have hproduct : toRat Snap.relativeTolerance * |toRat v| ≤ 1 / 2 ^ 29 * 10 ^ 15 :=
      mul_le_mul hhigh hsmall (abs_nonneg _) (by positivity)
    obtain ⟨hfinite, hnonneg, -⟩ := hrounds.between isDouble_zero
      (isDouble_intCast (n := 2 ^ 53) (by decide))
      (mul_nonneg (le_trans (by positivity) hlow) (abs_nonneg _)) (hproduct.trans (by norm_num))
    exact ⟨hfinite, hnonneg, fun hone => absurd hone hnot⟩

/-- A value is snapped by a small amount only, and by no more than the relative tolerance where it
is below one. -/
theorem tolerance_spec (hv : v.isFinite = true) (hsmall : |toRat v| ≤ 10 ^ 15) :
    (Snap.tolerance v).isFinite = true ∧ 0 ≤ toRat (Snap.tolerance v) ∧
      toRat (Snap.tolerance v) ≤ 1 / 2 ^ 19 ∧
      (|toRat v| < 1 → toRat (Snap.tolerance v) = toRat Snap.relativeTolerance) := by
  obtain ⟨-, -, hrelative⟩ := relativeTolerance_spec
  obtain ⟨hmax, hlow, hhigh⟩ := maxTolerance_spec
  obtain ⟨bound, hbound, htolerance⟩ : ∃ bound,
      Snap.relativeTolerance * (if v.abs < 1 then 1 else v.abs) = bound ∧
      Snap.tolerance v = if Snap.maxTolerance < bound then Snap.maxTolerance else bound :=
    ⟨_, rfl, rfl⟩
  obtain ⟨hfinite, hnonneg, hone⟩ := relative_bound_spec hv hsmall hbound
  rw [htolerance]
  split
  · next hcut =>
    rw [lt_iff_toRat hmax hfinite] at hcut
    refine ⟨hmax, le_trans (by positivity) hlow, hhigh, fun hlt => ?_⟩
    rw [hone hlt] at hcut
    have hle : (1 : ℚ) / 2 ^ 29 ≤ 1 / 2 ^ 20 := by norm_num
    linarith
  · next hkeep =>
    rw [lt_iff_toRat hmax hfinite, not_lt] at hkeep
    exact ⟨hfinite, hnonneg, hkeep.trans hhigh, hone⟩

/-! ### The continued fraction near a whole number -/

section

variable {r : Float} {c : Convergents}

/-- The whole part of a remainder passes into a word unchanged. -/
theorem truncate_floor (hr : r.isFinite = true) (h : 0 ≤ toRat r) (hlt : toRat r < 2 ^ 63) :
    truncate (floor r) = ⌊toRat r⌋ := by
  obtain ⟨hfloor, hvalue⟩ := floor_spec hr
  have hnonneg : (0 : ℚ) ≤ ⌊toRat r⌋ := by exact_mod_cast Int.floor_nonneg.2 h
  rw [truncate_eq hfloor (by rwa [hvalue]) (by rw [hvalue]; exact (Int.floor_le _).trans_lt hlt),
    hvalue, Int.floor_intCast]

/-- One term of the continued fraction of a double. -/
theorem refine_succ_eq (hr : r.isFinite = true) (h : 0 ≤ toRat r)
    (hlt : toRat r < 2 ^ 63) (terms : ℕ) (c : Convergents) : Snap.refine (terms + 1) r c =
      if Snap.admits c ⌊toRat r⌋ = true then
        if r - floor r < Snap.resolution then c.next ⌊toRat r⌋
        else Snap.refine terms (1 / (r - floor r)) (c.next ⌊toRat r⌋)
      else c := by
  rw [← truncate_floor hr h hlt]
  rfl

/-- The reciprocal of a fractional part that is not taken for zero is between one and 2⁵². -/
theorem rounds_reciprocal {f : Float} (hf : f.isFinite = true) (hlow : ¬ f < Snap.resolution) :
    Rounds (1 / f) (1 / toRat f) ∧ 1 / 2 ^ 52 ≤ toRat f := by
  obtain ⟨hresolution, hvalue⟩ := resolution_spec
  rw [lt_iff_toRat hf hresolution, hvalue, not_lt] at hlow
  have hpos : 0 < toRat f := lt_of_lt_of_le (by positivity) hlow
  have hrounds := rounds_div isFinite_one hf hpos.ne'
  rw [toRat_one] at hrounds
  exact ⟨hrounds, hlow⟩

/-- The reciprocal of a fractional part that is not taken for zero is finite, and at least each
integer that the exact one is at least. -/
theorem reciprocal_spec (hr : r.isFinite = true) (h : 0 ≤ toRat r)
    (hlow : ¬ r - floor r < Snap.resolution) {n : ℤ} (hn : n.natAbs ≤ 2 ^ 53)
    (hfract : n * Int.fract (toRat r) ≤ 1) :
    (1 / (r - floor r)).isFinite = true ∧ n ≤ toRat (1 / (r - floor r)) ∧
      toRat (1 / (r - floor r)) < 2 ^ 63 := by
  obtain ⟨hfraction, hvalue⟩ := sub_floor_spec hr h
  obtain ⟨hrounds, hge⟩ := rounds_reciprocal hfraction hlow
  rw [hvalue] at hrounds hge
  have hpos : 0 < Int.fract (toRat r) := lt_of_lt_of_le (by positivity) hge
  obtain ⟨hfinite, hlarge, hsmall⟩ := hrounds.between (isDouble_intCast hn)
    (isDouble_intCast (n := 2 ^ 52) (by decide)) (by rwa [le_div_iff₀ hpos])
    (by
      rw [div_le_iff₀ hpos]
      push_cast
      linarith)
  push_cast at hsmall
  exact ⟨hfinite, hlarge, by linarith⟩

/-- No term follows a whole number if the next one would be too large. -/
theorem refine_of_large (hr : r.isFinite = true) (hlarge : 10001 ≤ toRat r) (hlt : toRat r < 2 ^ 63)
    (hdenominator : c.denominator = 1) (hprevious : 0 ≤ c.previousDenominator) (terms : ℕ) :
    Snap.refine terms r c = c := by
  cases terms with
  | zero => rfl
  | succ terms =>
    have hfloor : 10001 ≤ ⌊toRat r⌋ := Int.le_floor.2 (by exact_mod_cast hlarge)
    have hrefused : ¬ Snap.admits c ⌊toRat r⌋ = true := by
      rw [Snap.admits, Bool.and_eq_true, decide_eq_true_iff]
      rintro ⟨-, hle⟩
      change ⌊toRat r⌋ * c.denominator + c.previousDenominator ≤ 10000 at hle
      rw [hdenominator] at hle
      omega
    rw [refine_succ_eq hr (by linarith) hlt, if_neg hrefused]

/-- The continued fraction ends at a whole number that the remainder is just above. -/
theorem refine_of_fract_le (hr : r.isFinite = true) (h : 0 ≤ toRat r) (hlt : toRat r < 2 ^ 63)
    (hfract : Int.fract (toRat r) ≤ 1 / 2 ^ 18) (hadmits : Snap.admits c ⌊toRat r⌋ = true)
    (hdenominator : (c.next ⌊toRat r⌋).denominator = 1) (hprevious : 0 ≤ c.denominator)
    (terms : ℕ) : Snap.refine (terms + 1) r c = c.next ⌊toRat r⌋ := by
  rw [refine_succ_eq hr h hlt, if_pos hadmits]
  split
  · rfl
  · next hlow =>
    obtain ⟨hfinite, hlarge, hsmall⟩ := reciprocal_spec hr h hlow (n := 2 ^ 18) (by decide) (by
      push_cast
      linarith)
    push_cast at hlarge
    exact refine_of_large hfinite (by linarith) hsmall hdenominator hprevious terms

theorem admits_one {n : ℤ} (h : 0 ≤ n) (hle : n ≤ 10 ^ 15) :
    Snap.admits ⟨1, n, 0, 1⟩ 1 = true := by
  simp only [Snap.admits, Bool.and_eq_true, fitsWord_iff, decide_eq_true_eq]
  simp only [Convergents.next, Snap.maxDenominator]
  omega

/-- The terms after the first one are at least one, so a denominator stays positive. -/
theorem one_le_denominator_refine (terms : ℕ) (hr : r.isFinite = true) (h : 1 ≤ toRat r)
    (hlt : toRat r < 2 ^ 63) (hdenominator : 1 ≤ c.denominator)
    (hprevious : 0 ≤ c.previousDenominator) :
    1 ≤ (Snap.refine terms r c).denominator := by
  induction terms generalizing r c with
  | zero => exact hdenominator
  | succ terms ih =>
    have hnonneg : 0 ≤ toRat r := zero_le_one.trans h
    have hterm : 1 ≤ ⌊toRat r⌋ := Int.le_floor.2 (by exact_mod_cast h)
    have hnext : 1 ≤ (c.next ⌊toRat r⌋).denominator := by
      change 1 ≤ ⌊toRat r⌋ * c.denominator + c.previousDenominator
      have hproduct := one_le_mul_of_one_le_of_one_le hterm hdenominator
      omega
    rw [refine_succ_eq hr hnonneg hlt]
    split
    · split
      · exact hnext
      · next hlow =>
        have hfract := Int.fract_lt_one (toRat r)
        obtain ⟨hfinite, hge, hlt'⟩ := reciprocal_spec hr hnonneg hlow (n := 1) (by decide) (by
          push_cast
          linarith)
        exact ih hfinite (by exact_mod_cast hge) hlt' hnext (zero_le_one.trans hdenominator)
    · exact hdenominator

/-- The first term of a magnitude within the bound of a snap is always used, so the fraction has a
denominator other than zero. -/
theorem one_le_denominator (terms : ℕ) (hr : r.isFinite = true) (h : 0 ≤ toRat r)
    (hsmall : toRat r ≤ 10 ^ 15) : 1 ≤ (Snap.refine (terms + 1) r .seed).denominator := by
  have hlt : toRat r < 2 ^ 63 := hsmall.trans_lt (by norm_num)
  have hle : ⌊toRat r⌋ ≤ 10 ^ 15 := by exact_mod_cast (Int.floor_le (toRat r)).trans hsmall
  have hadmits := Snap.admits_seed (Int.floor_nonneg.2 h) (hle.trans (by norm_num))
  rw [refine_succ_eq hr h hlt, if_pos hadmits, Convergents.seed_next]
  split
  · exact le_rfl
  · next hlow =>
    have hfract := Int.fract_lt_one (toRat r)
    obtain ⟨hfinite, hge, hlt'⟩ := reciprocal_spec hr h hlow (n := 1) (by decide) (by
      push_cast
      linarith)
    exact one_le_denominator_refine terms hfinite (by exact_mod_cast hge) hlt' le_rfl le_rfl

/-- Just below a whole number the first term is one less, and the remainder after it is just above
one. -/
theorem remainder_of_near_above (hr : r.isFinite = true) (h : 0 ≤ toRat r) {n : ℤ}
    (hlow : n - 1 / 2 ^ 19 ≤ toRat r) (hlt : toRat r < n) :
    ⌊toRat r⌋ = n - 1 ∧ ¬ r - floor r < Snap.resolution ∧ (1 / (r - floor r)).isFinite = true ∧
      1 ≤ toRat (1 / (r - floor r)) ∧ toRat (1 / (r - floor r)) ≤ 1 + 1 / 2 ^ 18 := by
  have hfloor : ⌊toRat r⌋ = n - 1 := by
    rw [Int.floor_eq_iff]
    push_cast
    exact ⟨by linarith, by linarith⟩
  obtain ⟨hfraction, hvalue⟩ := sub_floor_spec hr h
  obtain ⟨hresolution, hvalue'⟩ := resolution_spec
  have hlow' : 1 - 1 / 2 ^ 19 ≤ Int.fract (toRat r) := by
    rw [Int.fract, hfloor]
    push_cast
    linarith
  have hlt' := Int.fract_lt_one (toRat r)
  have hpos : 0 < Int.fract (toRat r) := lt_of_lt_of_le (by norm_num) hlow'
  have hcontinue : ¬ r - floor r < Snap.resolution := by
    rw [lt_iff_toRat hfraction hresolution, hvalue, hvalue']
    linarith
  obtain ⟨hrounds, -⟩ := rounds_reciprocal hfraction hcontinue
  rw [hvalue] at hrounds
  have hupper : IsDouble (1 + 1 / 2 ^ 18) := by
    have hdouble :=
      isDouble_intCast_mul (n := 2 ^ 18 + 1) (by decide) (e := -18) (by decide) (by decide)
    norm_num at hdouble ⊢
    exact hdouble
  refine ⟨hfloor, hcontinue, hrounds.between isDouble_one hupper ?_ ?_⟩
  · rw [le_div_iff₀ hpos]
    linarith
  · rw [div_le_iff₀ hpos]
    linarith

/-- A magnitude near a whole number has it among its first two convergents, and the continued
fraction ends there. -/
theorem refine_near_intCast (hr : r.isFinite = true) (h : 0 ≤ toRat r) (hsmall : toRat r ≤ 10 ^ 15)
    {n : ℤ} (hnear : |toRat r - n| ≤ 1 / 2 ^ 19) (terms : ℕ) :
    (Snap.refine (terms + 2) r .seed).numerator = n ∧
      (Snap.refine (terms + 2) r .seed).denominator = 1 := by
  obtain ⟨hlow, hhigh⟩ := abs_le.1 hnear
  have hlt : toRat r < 2 ^ 63 := hsmall.trans_lt (by norm_num)
  have hnonneg : 0 ≤ ⌊toRat r⌋ := Int.floor_nonneg.2 h
  have hle : ⌊toRat r⌋ ≤ 10 ^ 15 := by exact_mod_cast (Int.floor_le (toRat r)).trans hsmall
  have hadmits := Snap.admits_seed hnonneg (hle.trans (by norm_num))
  rcases le_or_gt (n : ℚ) (toRat r) with hbelow | habove
  · have hfloor : ⌊toRat r⌋ = n := Int.floor_eq_iff.2 ⟨hbelow, by linarith⟩
    have hfract : Int.fract (toRat r) ≤ 1 / 2 ^ 18 := by
      rw [Int.fract, hfloor]
      linarith
    rw [refine_of_fract_le hr h hlt hfract hadmits (by rw [Convergents.seed_next]) (by decide),
      Convergents.seed_next, hfloor]
    exact ⟨rfl, rfl⟩
  · obtain ⟨hfloor, hcontinue, hfinite, hge, hle'⟩ :=
      remainder_of_near_above hr h (by linarith) habove
    rw [hfloor] at hnonneg hle
    have hone : ⌊toRat (1 / (r - floor r))⌋ = 1 := by
      rw [Int.floor_eq_iff, Int.cast_one]
      exact ⟨hge, by linarith⟩
    have hfract : Int.fract (toRat (1 / (r - floor r))) ≤ 1 / 2 ^ 18 := by
      rw [Int.fract, hone, Int.cast_one]
      linarith
    rw [refine_succ_eq hr h hlt, if_pos hadmits, if_neg hcontinue, Convergents.seed_next, hfloor,
      refine_of_fract_le hfinite (by linarith) (by linarith) hfract
        (by rw [hone]; exact admits_one hnonneg hle) (by rw [hone]; rfl) zero_le_one, hone]
    exact ⟨by simp [Convergents.next], rfl⟩

end

/-! ### The value that a double is snapped to -/

/-- A double beyond the bound of a snap, infinite or undefined, is not changed. -/
theorem snap_of_large (h : v.isFinite = true → 10 ^ 15 < |toRat v|) : Snap.snap v = v := by
  obtain ⟨hmax, hvalue⟩ := maxMagnitude_spec
  have hguard : (!v.isFinite || decide (Snap.maxMagnitude < v.abs)) = true := by
    by_cases hv : v.isFinite = true
    · have hlt : Snap.maxMagnitude < v.abs := by
        rw [lt_iff_toRat hmax (by rwa [isFinite_abs]), hvalue, toRat_abs]
        exact h hv
      rw [decide_eq_true hlt, Bool.or_true]
    · rw [Bool.eq_false_of_not_eq_true hv]
      rfl
  exact if_pos hguard

/-- The fraction that a double is snapped to if it is near enough. -/
def fraction (v : Float) : Float :=
  Float.ofInt (Snap.approximate v).1 / Float.ofInt (Snap.approximate v).2

theorem snap_of_le (hv : v.isFinite = true) (hsmall : |toRat v| ≤ 10 ^ 15) :
    Snap.snap v = if (v - fraction v).abs ≤ Snap.tolerance v then fraction v else v := by
  obtain ⟨hmax, hvalue⟩ := maxMagnitude_spec
  have hle : ¬ Snap.maxMagnitude < v.abs := by
    rw [lt_iff_toRat hmax (by rwa [isFinite_abs]), hvalue, toRat_abs, not_lt]
    exact hsmall
  have hguard : ¬ (!v.isFinite || decide (Snap.maxMagnitude < v.abs)) = true := by
    rw [hv, decide_eq_false hle]
    decide
  exact if_neg hguard

/-! ### The fraction and its sign -/

theorem isDouble_two_pow_63 : IsDouble (2 ^ 63) := by
  have hdouble := isDouble_intCast_mul (n := 1) (by decide) (e := 63) (by decide) (by decide)
  rwa [Int.cast_one, Rat.one_mul] at hdouble

/-- An integer that fits in a word is passed to a finite double. -/
theorem toRat_ofInt_of_fitsWord {n : ℤ} (hn : fitsWord n = true) :
    (Float.ofInt n).isFinite = true ∧ -2 ^ 63 ≤ toRat (Float.ofInt n) ∧
      toRat (Float.ofInt n) ≤ 2 ^ 63 := by
  obtain ⟨hlow, hhigh⟩ := fitsWord_iff.1 hn
  refine (rounds_ofInt n).between isDouble_two_pow_63.neg isDouble_two_pow_63 ?_ ?_
  · norm_num
    exact_mod_cast hlow
  · norm_num
    exact_mod_cast hhigh.le

/-- A quotient of integers that fit in words is finite, is no larger than a word and has the sign of
its numerator if its denominator is positive. -/
theorem toRat_ofInt_div {h k : ℤ} (hh : fitsWord h = true) (hk : fitsWord k = true) (hpos : 1 ≤ k) :
    (Float.ofInt h / Float.ofInt k).isFinite = true ∧
      (0 ≤ h → 0 ≤ toRat (Float.ofInt h / Float.ofInt k)) ∧
      (h ≤ 0 → toRat (Float.ofInt h / Float.ofInt k) ≤ 0) ∧
      |toRat (Float.ofInt h / Float.ofInt k)| ≤ 2 ^ 63 := by
  obtain ⟨hh', hlow, hhigh⟩ := toRat_ofInt_of_fitsWord hh
  obtain ⟨hk', -, -⟩ := toRat_ofInt_of_fitsWord hk
  have hone : 1 ≤ toRat (Float.ofInt k) :=
    (rounds_ofInt k).le_toRat hk' isDouble_one (by exact_mod_cast hpos)
  have hk0 : 0 < toRat (Float.ofInt k) := lt_of_lt_of_le one_pos hone
  have hrounds := rounds_div hh' hk' hk0.ne'
  obtain ⟨hfinite, hword⟩ := hrounds.between isDouble_two_pow_63.neg isDouble_two_pow_63
    (by
      rw [le_div_iff₀ hk0]
      linarith)
    (by
      rw [div_le_iff₀ hk0]
      linarith)
  refine ⟨hfinite, fun h => ?_, fun h => ?_, abs_le.2 hword⟩
  · have hnonneg := (rounds_ofInt _).le_toRat hh' isDouble_zero (by exact_mod_cast h)
    exact hrounds.le_toRat hfinite isDouble_zero (div_nonneg hnonneg hk0.le)
  · have hnonpos := (rounds_ofInt _).toRat_le hh' isDouble_zero (by exact_mod_cast h)
    exact hrounds.toRat_le hfinite isDouble_zero (div_nonpos_of_nonpos_of_nonneg hnonpos hk0.le)

section

variable (hv : v.isFinite = true) (hsmall : |toRat v| ≤ 10 ^ 15)

include hv hsmall

theorem one_le_denominator_abs : 1 ≤ (Snap.refine Snap.maxTerms v.abs .seed).denominator :=
  one_le_denominator 63 (by rwa [isFinite_abs]) (toRat_abs v ▸ abs_nonneg _) (toRat_abs v ▸ hsmall)

theorem approximate_of_nonneg (h : ¬ v < 0) : Snap.approximate v =
    ((Snap.refine Snap.maxTerms v.abs .seed).numerator,
      (Snap.refine Snap.maxTerms v.abs .seed).denominator) := by
  have hdenominator := one_le_denominator_abs hv hsmall
  exact (Snap.approximate_eq (zero_lt_one.trans_le hdenominator).ne').trans
    (congrArg (·, _) (if_neg h))

theorem approximate_of_neg (h : v < 0) : Snap.approximate v =
    (-(Snap.refine Snap.maxTerms v.abs .seed).numerator,
      (Snap.refine Snap.maxTerms v.abs .seed).denominator) := by
  have hdenominator := one_le_denominator_abs hv hsmall
  exact (Snap.approximate_eq (zero_lt_one.trans_le hdenominator).ne').trans
    (congrArg (·, _) (if_pos h))

/-- The denominator of the approximating fraction is positive. -/
theorem one_le_approximate : 1 ≤ (Snap.approximate v).2 := by
  by_cases h : v < 0
  · rw [approximate_of_neg hv hsmall h]
    exact one_le_denominator_abs hv hsmall
  · rw [approximate_of_nonneg hv hsmall h]
    exact one_le_denominator_abs hv hsmall

/-- The fraction of a double is finite, is no larger than a word and lies on the same side of zero
as the double. -/
theorem fraction_spec :
    (fraction v).isFinite = true ∧ (¬ v < 0 → 0 ≤ toRat (fraction v)) ∧
      (v < 0 → toRat (fraction v) ≤ 0) ∧ |toRat (fraction v)| ≤ 2 ^ 63 := by
  have hwords := Snap.inWords_refine v Snap.maxTerms
  obtain ⟨hnumerator, hdenominator⟩ := Snap.fitsWord_approximate v
  obtain ⟨hfinite, habove, hbelow, hword⟩ :=
    toRat_ofInt_div hnumerator hdenominator (one_le_approximate hv hsmall)
  refine ⟨hfinite, fun h => habove ?_, fun h => hbelow ?_, hword⟩
  · rw [approximate_of_nonneg hv hsmall h]
    exact hwords.numerator.1
  · rw [approximate_of_neg hv hsmall h]
    exact neg_nonpos.2 hwords.numerator.1

end

/-- A finite double is not changed, or it is within the bound and snapped to its fraction. -/
theorem snap_cases (hv : v.isFinite = true) :
    Snap.snap v = v ∨ Snap.snap v = fraction v ∧ |toRat v| ≤ 10 ^ 15 := by
  by_cases hsmall : |toRat v| ≤ 10 ^ 15
  · rw [snap_of_le hv hsmall]
    split
    · exact .inr ⟨rfl, hsmall⟩
    · exact .inl rfl
  · exact .inl (snap_of_large fun _ => not_le.1 hsmall)

theorem isFinite_snap (hv : v.isFinite = true) : (Snap.snap v).isFinite = true := by
  rcases snap_cases hv with h | ⟨h, hsmall⟩
  · rwa [h]
  · rw [h]
    exact (fraction_spec hv hsmall).1

/-! ### Snaps to whole numbers -/

theorem approximate_near_intCast (hv : v.isFinite = true) (hsmall : |toRat v| ≤ 10 ^ 15) {n : ℤ}
    (hnear : |toRat v - n| ≤ 1 / 2 ^ 19) : Snap.approximate v = (n, 1) := by
  have habs : v.abs.isFinite = true := by rwa [isFinite_abs]
  have hneg : v < 0 ↔ toRat v < 0 := by rw [lt_iff_toRat hv isFinite_zero, toRat_zero]
  have hvalue := toRat_abs v
  have hnonneg : 0 ≤ toRat v.abs := by rw [hvalue]; exact abs_nonneg _
  have hsmall' : toRat v.abs ≤ 10 ^ 15 := by rwa [hvalue]
  by_cases hbelow : v < 0
  · rw [abs_of_neg (hneg.1 hbelow)] at hvalue
    have hturned : |toRat v.abs - (-n : ℤ)| ≤ 1 / 2 ^ 19 := by
      rwa [hvalue, Int.cast_neg, neg_sub_neg, abs_sub_comm]
    obtain ⟨hnumerator, hdenominator⟩ := refine_near_intCast habs hnonneg hsmall' hturned 62
    rw [approximate_of_neg hv hsmall hbelow, Snap.maxTerms, hnumerator, hdenominator, neg_neg]
  · rw [abs_of_nonneg (not_lt.1 (mt hneg.2 hbelow))] at hvalue
    rw [← hvalue] at hnear
    obtain ⟨hnumerator, hdenominator⟩ := refine_near_intCast habs hnonneg hsmall' hnear 62
    rw [approximate_of_nonneg hv hsmall hbelow, Snap.maxTerms, hnumerator, hdenominator]

/-- The fraction of a double near a whole number is that number. -/
theorem toRat_fraction_of_near (hv : v.isFinite = true) (hsmall : |toRat v| ≤ 10 ^ 15) {n : ℤ}
    (hnear : |toRat v - n| ≤ 1 / 2 ^ 19) :
    (fraction v).isFinite = true ∧ toRat (fraction v) = n := by
  have hbound : |(n : ℚ)| ≤ 10 ^ 15 + 1 := by
    have htriangle := abs_sub_abs_le_abs_sub (n : ℚ) (toRat v)
    rw [abs_sub_comm] at htriangle
    linarith
  have hbits : n.natAbs ≤ 2 ^ 53 := by
    have hbound' : |n| ≤ 10 ^ 15 + 1 := by exact_mod_cast hbound
    rw [Int.abs_eq_natAbs] at hbound'
    omega
  obtain ⟨hnumerator, hvalue⟩ := toRat_ofInt hbits
  obtain ⟨hdenominator, hone⟩ := toRat_ofInt (n := 1) (by decide)
  rw [Int.cast_one] at hone
  have hrounds := rounds_div hnumerator hdenominator (by rw [hone]; exact one_ne_zero)
  rw [hone, hvalue, div_one] at hrounds
  rw [fraction, approximate_near_intCast hv hsmall hnear]
  exact hrounds.exact (isDouble_intCast hbits)

/-- A double is snapped to a whole number exactly if it lies within its tolerance of it. -/
theorem toRat_snap_eq_intCast_iff (hv : v.isFinite = true) (hsmall : |toRat v| ≤ 10 ^ 15) (n : ℤ) :
    toRat (Snap.snap v) = n ↔ |toRat v - n| ≤ toRat (Snap.tolerance v) := by
  obtain ⟨htolerance, hnonneg, hupper, -⟩ := tolerance_spec hv hsmall
  rw [snap_of_le hv hsmall]
  constructor
  · intro hn
    split at hn
    · next hnear =>
      have hdifference := isFinite_of_abs_le htolerance hnear
      have hfraction := (fraction_spec hv hsmall).1
      rw [le_iff_toRat (by rwa [isFinite_abs]) htolerance, toRat_abs] at hnear
      have hrounds := rounds_sub hv hfraction
      rw [hn] at hrounds
      have hhalf : |toRat v - n| ≤ 1 / 2 :=
        hrounds.abs_le_of_lt hdifference (isDouble_two_pow_inv (k := 1) (by decide)) (by linarith)
      rwa [(toRat_sub_of_near hv hfraction hn hhalf).2] at hnear
    · rw [hn, sub_self, abs_zero]
      exact hnonneg
  · intro hnear
    obtain ⟨hfraction, hvalue⟩ := toRat_fraction_of_near hv hsmall (hnear.trans hupper)
    obtain ⟨hdifference, hvalue'⟩ := toRat_sub_of_near hv hfraction hvalue (by linarith)
    have haccept : (v - fraction v).abs ≤ Snap.tolerance v := by
      rwa [le_iff_toRat (by rwa [isFinite_abs]) htolerance, toRat_abs, hvalue']
    rw [if_pos haccept, hvalue]

end Double

end LinProg
