import LinProg.Proofs.Rounding

/-!
# The operations on doubles

The difference, the product and the quotient of finite doubles give the exact result rounded, and so
does the passage from a decimal or an integer. What is infinite or undefined has no finite
differences, and the magnitude, the minimum and the maximum are those of the numbers that are
denoted.
-/

namespace LinProg

namespace Double

open Float.Model Float.Model.UnpackedFloat

variable {v w : Float}

/-! ### The arithmetic operations -/

theorem cast_apply_shiftLeft (s : Sign) (m : ℕ) {e t : ℤ} (h : t ≤ e) :
    ((s.apply (m <<< (e - t).toNat : ℕ) : ℤ) : ℚ) * 2 ^ t = signed s (m * 2 ^ e) := by
  rw [cast_apply, signed_mul, Nat.shiftLeft_eq, two_zpow_eq_mul h]
  push_cast
  rw [mul_assoc]

/-- A product has as many bits as a double has, or an exponent that is small enough. -/
theorem fits_product {m m' : ℕ} {e e' : ℤ} (hm : IsRounded m e) (hm' : IsRounded m' e') :
    e + e' ≤ Format.binary64.targetExponent (totalExponent (m * m') (e + e')) := by
  have hlog : 52 ≤ (m * m').log2 ∨ e + e' ≤ -1074 := by
    rw [Nat.le_log2 (Nat.mul_pos hm.pos hm'.pos).ne']
    rcases hm.full with hfull | rfl
    · exact .inl (hfull.trans (Nat.le_mul_of_pos_right m hm'.pos))
    · rcases hm'.full with hfull | rfl
      · exact .inl (hfull.trans (Nat.le_mul_of_pos_left m' hm.pos))
      · exact .inr (by decide)
  rw [targetExponent_eq]
  omega

/-- A quotient is taken to as many bits as a double has, or to an exponent that is small enough. -/
theorem fits_quotient {m m' k : ℕ} {e e' t : ℤ} (hm : 0 < m) (hm' : 0 < m')
    (ht : min (e - e') (Format.binary64.targetExponent
      (totalExponent m e - totalExponent m' e')) = t)
    (hk : (e - e' - t).toNat = k) :
    t ≤ Format.binary64.targetExponent (totalExponent (m * 2 ^ k / m') t) := by
  have htarget : Format.binary64.targetExponent (totalExponent m e - totalExponent m' e') =
      max (m.log2 + e - m'.log2 - e' - 53) (-1074) := by
    have hmax : ∀ x, Format.binary64.targetExponent x = max (x - 53) (-1074) := fun _ => rfl
    rw [hmax, totalExponent, totalExponent]
    omega
  rw [targetExponent_eq]
  rw [htarget] at ht
  rcases le_or_gt t (-1074) with hle | hgt
  · omega
  · have hfull : 2 ^ 52 ≤ m * 2 ^ k / m' := by
      rw [Nat.le_div_iff_mul_le hm']
      calc 2 ^ 52 * m' ≤ 2 ^ 52 * 2 ^ (m'.log2 + 1) := Nat.mul_le_mul_left _ Nat.lt_log2_self.le
        _ = 2 ^ (53 + m'.log2) := by rw [← Nat.pow_add]; congr 1; omega
        _ ≤ 2 ^ (m.log2 + k) := Nat.pow_le_pow_right two_pos (by omega)
        _ = 2 ^ m.log2 * 2 ^ k := Nat.pow_add _ _ _
        _ ≤ m * 2 ^ k := Nat.mul_le_mul_right _ (Nat.log2_self_le hm.ne')
    have hlog : 52 ≤ (m * 2 ^ k / m').log2 := (Nat.le_log2 (by positivity)).2 hfull
    omega

/-- The product of two magnitudes is rounded if it has enough bits. -/
theorem rounds_packed_mul (s s' : Sign) {m m' : ℕ} (e e' : ℤ) (h : 0 < m) (h' : 0 < m')
    (hfit : e + e' ≤ Format.binary64.targetExponent (totalExponent (m * m') (e + e'))) :
    Rounds (packed (.mul .binary64 (.finite s m e h) (.finite s' m' e' h')))
      (signed s (m * 2 ^ e) * signed s' (m' * 2 ^ e')) := by
  rw [← signed_mul_signed, mul_mul_mul_comm, ← two_zpow_add, ← Nat.cast_mul]
  exact rounds_roundWithAccuracy (s * s') (.exactly (m * m')) hfit

/-- The quotient of two magnitudes is rounded. -/
theorem rounds_packed_div (s s' : Sign) {m m' : ℕ} (e e' : ℤ) (h : 0 < m) (h' : 0 < m') :
    Rounds (packed (.div .binary64 (.finite s m e h) (.finite s' m' e' h')))
      (signed s (m * 2 ^ e) / signed s' (m' * 2 ^ e')) := by
  obtain ⟨t, ht⟩ : ∃ t, min (e - e') (Format.binary64.targetExponent
      (totalExponent m e - totalExponent m' e')) = t := ⟨_, rfl⟩
  obtain ⟨k, hk⟩ : ∃ k, (e - e' - t).toNat = k := ⟨_, rfl⟩
  have hrounds := rounds_roundWithAccuracy (s / s') (.quotient (m * 2 ^ k) h')
    (fits_quotient h h' ht hk)
  have hvalue : ((m * 2 ^ k : ℕ) / m' : ℚ) * 2 ^ t = (m * 2 ^ e) / (m' * 2 ^ e') := by
    have hexponent : e = k + t + e' := by omega
    have hpos := (two_zpow_pos e').ne'
    rw [hexponent, two_zpow_add, two_zpow_add, zpow_natCast, Nat.cast_mul, Nat.cast_pow,
      Nat.cast_two]
    field_simp
  rw [hvalue] at hrounds
  rw [← signed_div_signed, UnpackedFloat.div]
  simp only [divCore, ht, hk, Nat.shiftLeft_eq]
  exact hrounds

section

variable (hv : v.isFinite = true) (hw : w.isFinite = true)

include hv hw

theorem rounds_sub : Rounds (v - w) (toRat v - toRat w) := by
  rcases unpacked_cases hw with ⟨s', hw'⟩ | ⟨s', m', e', h', hw', -⟩
  · rw [toRat_of_unpacked hw', value_zero, sub_zero]
    rcases unpacked_cases hv with ⟨s, hv'⟩ | ⟨s, m, e, h, hv', -⟩
    · rw [sub_eq, toRat_of_unpacked hv', hv', hw', value_zero]
      cases s <;> cases s' <;> exact rounds_zero _
    · have hsub : v - w = v := by
        rw [sub_eq, hv', hw']
        exact (congrArg packed hv'.symm).trans (packed_unpacked v)
      rw [hsub]
      exact rounds_toRat hv
  · rcases unpacked_cases hv with ⟨s, hv'⟩ | ⟨s, m, e, h, hv', -⟩
    · have hsub : v - w = -w := by
        rw [sub_eq, hv', neg_eq, hw']
        rfl
      rw [hsub, toRat_of_unpacked hv', value_zero, zero_sub, ← toRat_neg]
      exact rounds_toRat (isFinite_neg hw)
    · rw [sub_eq, toRat_of_unpacked hv', toRat_of_unpacked hw', hv', hw', value_finite,
        value_finite, ← cast_apply_shiftLeft s m (min_le_left e e'),
        ← cast_apply_shiftLeft s' m' (min_le_right e e'), ← sub_mul, ← Int.cast_sub]
      exact rounds_normalize _ _ _

theorem rounds_mul : Rounds (v * w) (toRat v * toRat w) := by
  rcases unpacked_cases hw with ⟨s', hw'⟩ | ⟨s', m', e', h', hw', hm', -⟩
  · rw [toRat_of_unpacked hw', value_zero, mul_zero]
    rcases unpacked_cases hv with ⟨s, hv'⟩ | ⟨s, m, e, h, hv', -⟩ <;> rw [mul_eq, hv', hw'] <;>
      exact rounds_zero _
  · rcases unpacked_cases hv with ⟨s, hv'⟩ | ⟨s, m, e, h, hv', hm, -⟩
    · rw [mul_eq, toRat_of_unpacked hv', hv', hw', value_zero, zero_mul]
      exact rounds_zero _
    · rw [mul_eq, toRat_of_unpacked hv', toRat_of_unpacked hw', hv', hw', value_finite,
        value_finite]
      exact rounds_packed_mul s s' e e' h h' (fits_product hm hm')

theorem rounds_div (hne : toRat w ≠ 0) : Rounds (v / w) (toRat v / toRat w) := by
  rcases unpacked_cases hw with ⟨s', hw'⟩ | ⟨s', m', e', h', hw', -⟩
  · exact absurd (toRat_of_unpacked hw') hne
  · rcases unpacked_cases hv with ⟨s, hv'⟩ | ⟨s, m, e, h, hv', -⟩
    · rw [div_eq, toRat_of_unpacked hv', hv', hw', value_zero, zero_div]
      exact rounds_zero _
    · rw [div_eq, toRat_of_unpacked hv', toRat_of_unpacked hw', hv', hw', value_finite,
        value_finite]
      exact rounds_packed_div s s' e e' h h'

end

/-! ### Decimals -/

/-- A number from zero upwards that is below each double above zero is rounded to zero. -/
theorem rounds_zero_of_lt {x : ℚ} (hx : 0 ≤ x) (hlt : x < smallest) :
    Rounds (packed (.zero .positive)) x := by
  refine Follows.rounds_zero ⟨fun d _ hle => hx.trans hle, fun d hd hle => ?_, ?_⟩
  · rcases unpacked_cases hd with ⟨s, hu⟩ | ⟨s, m, e, h, hu, hm, -⟩
    · rw [toRat_of_unpacked hu, value_zero]
    · rw [toRat_of_unpacked hu, value_finite] at hle ⊢
      cases s with
      | negative => exact neg_nonpos.2 (magnitude_pos h e).le
      | positive =>
        have hunit : smallest ≤ 2 ^ e := zpow_le_zpow_right₀ one_le_two hm.le
        have hone : (1 : ℚ) ≤ m := by exact_mod_cast h
        exact absurd (hunit.trans (le_mul_of_one_le_left (two_zpow_pos e).le hone))
          (not_le.2 (hle.trans_lt hlt))
  · rw [zero_sub, abs_neg, abs_of_nonneg hx]
    exact hlt.le.trans (le_add_of_nonneg_left (by positivity))

/-- A number beyond all doubles is rounded to infinity. -/
theorem rounds_infinity {x : ℚ} (hx : 2 ^ 1024 ≤ x) : Rounds (packed (.infinity .positive)) x := by
  have hu : unpacked (packed (.infinity .positive)) = .infinity .positive := rfl
  have hbeyond : IsRounded (2 ^ 52) 972 := ⟨by positivity, by norm_num, by norm_num, .inl le_rfl⟩
  refine ⟨fun d hd hle => ?_, fun d hd _ => le_of_infinity hd hu, fun h => ?_⟩
  · have hlt := (le_abs_self _).trans_lt (hbeyond.abs_toRat_lt (by decide) hd)
    have hpower : ((2 ^ 52 : ℕ) : ℚ) * 2 ^ (972 : ℤ) = 2 ^ 1024 := by
      rw [Nat.cast_pow, Nat.cast_two, ← zpow_natCast, ← two_zpow_add]
      rfl
    exact absurd (hx.trans hle) (not_le.2 (hlt.trans_eq hpower))
  · rw [isFinite_eq, hu] at h
    cases h

/-- A decimal with a whole coefficient is rounded to a double, whatever its exponent is. -/
theorem rounds_packed_ofScientific (m : ℕ) (e : ℤ) :
    Rounds (packed (.ofScientific .binary64 m e)) (m * 10 ^ e) := by
  unfold UnpackedFloat.ofScientific
  split
  · next hm =>
    rw [hm, Nat.cast_zero, zero_mul]
    exact rounds_zero .positive
  next hm =>
  have hone : (1 : ℚ) ≤ m := by exact_mod_cast Nat.one_le_iff_ne_zero.2 hm
  split
  · next hlarge =>
    have hlarge : (2048 : ℤ) < e := hlarge
    refine rounds_infinity ?_
    calc (2 : ℚ) ^ 1024 ≤ 10 ^ 1024 := pow_le_pow_left₀ two_pos.le (by norm_num) _
      _ = 10 ^ (1024 : ℤ) := rfl
      _ ≤ 10 ^ e := zpow_le_zpow_right₀ (by norm_num) (by omega)
      _ ≤ m * 10 ^ e := le_mul_of_one_le_left (by positivity) hone
  split
  · next hsmall =>
    have hsmall : e < -(2048 + m.log2) := hsmall
    have hlog : (m : ℚ) < 2 ^ (m.log2 + 1) := by exact_mod_cast Nat.lt_log2_self
    have hpower : (10 : ℚ) ^ e ≤ 2 ^ e := by
      obtain ⟨k, rfl⟩ : ∃ k : ℕ, e = -k := ⟨e.natAbs, by omega⟩
      rw [zpow_neg, zpow_neg, zpow_natCast, zpow_natCast]
      gcongr
      norm_num
    refine rounds_zero_of_lt (by positivity) ?_
    calc (m : ℚ) * 10 ^ e ≤ m * 2 ^ e := by gcongr
      _ < 2 ^ (m.log2 + 1) * 2 ^ e := by gcongr
      _ = 2 ^ (m.log2 + 1 + e) := by rw [← zpow_natCast, ← two_zpow_add]; rfl
      _ ≤ smallest := zpow_le_zpow_right₀ one_le_two (by omega)
  split
  · next hnonneg =>
    obtain ⟨k, rfl⟩ := Int.eq_ofNat_of_zero_le hnonneg
    have hfit : (-53 : ℤ) + 0 ≤ Format.binary64.targetExponent
        (totalExponent (m <<< 53 * 10 ^ k) (-53 + 0)) := by
      have hpos : 0 < m * 2 ^ 53 * 10 ^ k := by positivity
      have hlog : 53 ≤ (m * 2 ^ 53 * 10 ^ k).log2 := by
        rw [Nat.le_log2 hpos.ne']
        calc 2 ^ 53 ≤ m * 2 ^ 53 := Nat.le_mul_of_pos_left _ (by omega)
          _ ≤ m * 2 ^ 53 * 10 ^ k := Nat.le_mul_of_pos_right _ (by positivity)
      rw [targetExponent_eq, Nat.shiftLeft_eq]
      omega
    have hrounds := rounds_packed_mul .positive .positive (-53) 0
      (Nat.shiftLeft_eq m 53 ▸ Nat.mul_pos (Nat.pos_of_ne_zero hm) (by decide))
      (Nat.pow_pos (by decide : 0 < 10) (n := k)) hfit
    have hvalue : signed .positive ((m <<< 53 : ℕ) * 2 ^ (-53 : ℤ)) *
        signed .positive ((10 ^ k : ℕ) * 2 ^ (0 : ℤ)) = (m : ℚ) * 10 ^ (k : ℤ) := by
      rw [signed, signed, Nat.shiftLeft_eq, zpow_zero, Rat.mul_one, zpow_natCast, Nat.cast_mul,
        Nat.cast_pow, Nat.cast_pow, zpow_neg]
      exact congrArg (· * _) (mul_inv_cancel_right₀ (by positivity) _)
    rw [hvalue] at hrounds
    exact hrounds
  · next hneg =>
    obtain ⟨k, hk⟩ : ∃ k, (-e).toNat = k := ⟨_, rfl⟩
    have hrounds := rounds_packed_div .positive .positive 0 0 (Nat.pos_of_ne_zero hm)
      (Nat.pow_pos (by decide : 0 < 10) (n := k))
    have hvalue : signed .positive ((m : ℚ) * 2 ^ (0 : ℤ)) /
        signed .positive ((10 ^ k : ℕ) * 2 ^ (0 : ℤ)) = m * 10 ^ e := by
      obtain rfl : e = -k := by omega
      rw [signed, signed]
      push_cast
      rw [zpow_neg, zpow_natCast]
      field_simp
    subst hk
    rw [hvalue] at hrounds
    exact hrounds

theorem exactlyRepresentablePowersOfTen_spec :
    ∀ e : Fin Float.exactlyRepresentablePowersOfTen.size,
      Float.exactlyRepresentablePowersOfTen[e].isFinite = true ∧
        toRat Float.exactlyRepresentablePowersOfTen[e] = 10 ^ e.val := by
  decide +kernel

/-- A natural number below 2⁵³ has the double that denotes it. -/
theorem toRat_packed_ofNat {n : ℕ} (hn : n < 2 ^ 53) :
    (packed (.ofNat .binary64 n)).isFinite = true ∧ toRat (packed (.ofNat .binary64 n)) = n := by
  have hrounds := rounds_normalize n 0 .positive
  rw [zpow_zero, Rat.mul_one] at hrounds
  exact hrounds.exact (isDouble_intCast (by omega))

/-- A decimal literal is rounded. -/
theorem rounds_ofScientific (m : ℕ) (down : Bool) (e : ℕ) :
    Rounds (Float.ofScientific m down e) (m * 10 ^ (if down then -e else e : ℤ)) := by
  unfold Float.ofScientific
  split
  · next h =>
    obtain ⟨hfinite, hvalue⟩ := toRat_packed_ofNat h.1
    have hword : m.toUInt64.toFloat = packed (.ofNat .binary64 m) := by
      change packed (.ofNat .binary64 (m % 2 ^ 64)) = _
      rw [Nat.mod_eq_of_lt (by omega)]
    obtain ⟨hpower, htens⟩ := exactlyRepresentablePowersOfTen_spec
      ⟨e, Nat.lt_succ_of_le h.2⟩
    dsimp only
    rw [hword]
    cases down with
    | true =>
      have hrounds := rounds_div hfinite hpower (by rw [htens]; positivity)
      rw [hvalue, htens, div_eq_mul_inv, ← zpow_natCast, ← zpow_neg] at hrounds
      exact hrounds
    | false =>
      have hrounds := rounds_mul hfinite hpower
      rw [hvalue, htens, ← zpow_natCast] at hrounds
      exact hrounds
  · cases down with
    | true =>
      have h : Int.negOfNat e = -e := Int.negOfNat_eq
      have hrounds := rounds_packed_ofScientific m (-e)
      rw [← h] at hrounds
      exact hrounds
    | false => exact rounds_packed_ofScientific m e

theorem rounds_ofNat (n : ℕ) : Rounds (Float.ofNat n) n := by
  have hrounds := rounds_ofScientific n false 0
  rwa [if_neg Bool.false_ne_true, Nat.cast_zero, zpow_zero, Rat.mul_one] at hrounds

theorem rounds_ofInt (n : ℤ) : Rounds (Float.ofInt n) n := by
  cases n with
  | ofNat n => exact rounds_ofNat n
  | negSucc n =>
    rw [Int.cast_negSucc]
    exact (rounds_ofNat (n + 1)).neg

theorem toRat_ofInt {n : ℤ} (hn : n.natAbs ≤ 2 ^ 53) :
    (Float.ofInt n).isFinite = true ∧ toRat (Float.ofInt n) = n :=
  (rounds_ofInt n).exact (isDouble_intCast hn)

/-! ### Magnitudes -/

theorem unpacked_abs (v : Float) : unpacked v.abs = (unpacked v).abs := by
  change unpacked (packed (unpacked v).abs) = _
  cases hu : unpacked v with
  | zero s => exact unpacked_packed_zero _
  | finite s m e h =>
    have hv : v.isFinite = true := by rw [isFinite_eq, hu]; rfl
    rcases unpacked_cases hv with ⟨s', hu'⟩ | ⟨s', m', e', h', hu', hm, he⟩
    · rw [hu] at hu'
      cases hu'
    · rw [hu] at hu'
      cases hu'
      exact hm.unpacked_packed he
  | infinity s => exact (rfl : unpacked (packed (.infinity .positive)) = .infinity .positive)
  | notANumber => rfl

theorem isFinite_abs (v : Float) : v.abs.isFinite = v.isFinite := by
  rw [isFinite_eq, isFinite_eq, unpacked_abs]
  cases unpacked v <;> rfl

theorem toRat_abs (v : Float) : toRat v.abs = |toRat v| := by
  rw [toRat_eq_value, toRat_eq_value, unpacked_abs]
  cases unpacked v with
  | finite s m e h => exact (abs_signed s (magnitude_pos h e).le).symm
  | _ => exact abs_zero.symm

/-! ### Bounded doubles -/

/-- A double of bounded magnitude is finite. -/
theorem isFinite_of_abs_le (hd : d.isFinite = true) (h : v.abs ≤ d) : v.isFinite = true := by
  rw [le_iff, unpacked_abs] at h
  rw [isFinite_eq]
  cases hu : unpacked v with
  | zero s => rfl
  | finite s m e hm => rfl
  | notANumber =>
    rw [hu] at h
    cases h
  | infinity s =>
    rw [hu] at h
    rcases unpacked_cases hd with ⟨s, hu'⟩ | ⟨_ | _, m, e, hm, hu', -⟩ <;> rw [hu'] at h <;> cases h

/-- What is taken from a double with a finite result is finite. -/
theorem isFinite_of_sub (h : (v - w).isFinite = true) : w.isFinite = true := by
  rw [isFinite_eq] at h ⊢
  rw [sub_eq] at h
  generalize unpacked v = u at h
  generalize unpacked w = u' at h ⊢
  cases u' with
  | zero s => rfl
  | finite s m e hm => rfl
  | notANumber =>
    have hsub : UnpackedFloat.sub .binary64 u .notANumber = .notANumber := by cases u <;> rfl
    rw [hsub] at h
    cases h
  | infinity s =>
    have hsub : UnpackedFloat.sub .binary64 u (.infinity s) = .notANumber ∨
        ∃ s', UnpackedFloat.sub .binary64 u (.infinity s) = .infinity s' := by
      rcases u with (_ | _) | _ | (_ | _) | ⟨_ | _, m, e, hm⟩ <;> cases s <;>
        first | exact .inl rfl | exact .inr ⟨_, rfl⟩
    rcases hsub with hsub | ⟨_ | _, hsub⟩ <;> rw [hsub] at h <;> cases h

/-- What is multiplied with a zero, with a finite result, is finite. -/
theorem isFinite_of_mul_zero (hw : (w == 0) = true) (h : (v * w).isFinite = true) :
    v.isFinite = true := by
  obtain ⟨s, hw⟩ := beq_zero_iff.1 hw
  rw [isFinite_eq] at h ⊢
  rw [mul_eq, hw] at h
  cases hu : unpacked v with
  | zero s' => rfl
  | finite s' m e hm => rfl
  | infinity s' =>
    have hmul : UnpackedFloat.mul .binary64 (.infinity s') (.zero s) = .notANumber := rfl
    rw [hu, hmul] at h
    cases h
  | notANumber =>
    have hmul : UnpackedFloat.mul .binary64 .notANumber (.zero s) = .notANumber := rfl
    rw [hu, hmul] at h
    cases h

/-- What equals a finite double is finite. -/
theorem isFinite_of_beq (h : (v == w) = true) (hw : w.isFinite = true) : v.isFinite = true := by
  rcases eq_or_zero_of_beq h with rfl | ⟨hv, -⟩
  · exact hw
  · rcases eq_of_beq_zero hv with rfl | rfl <;> rfl

/-! ### The minimum and the maximum -/

section

variable (hv : v.isFinite = true) (hw : w.isFinite = true)

include hv hw

theorem max_eq : max v w = if w < v then v else w := by
  change (if v ≤ w then w else v) = _
  by_cases h : w < v
  · rw [if_pos h, if_neg fun hle => ((le_iff_toRat hv hw).1 hle).not_gt ((lt_iff_toRat hw hv).1 h)]
  · rw [if_neg h, if_pos ((le_iff_toRat hv hw).2 (not_lt.1 (mt (lt_iff_toRat hw hv).2 h)))]

theorem min_eq : min v w = if w < v then w else v := by
  change (if v ≤ w then v else w) = _
  by_cases h : w < v
  · rw [if_pos h, if_neg fun hle => ((le_iff_toRat hv hw).1 hle).not_gt ((lt_iff_toRat hw hv).1 h)]
  · rw [if_neg h, if_pos ((le_iff_toRat hv hw).2 (not_lt.1 (mt (lt_iff_toRat hw hv).2 h)))]

end

end Double

end LinProg
