import LinProg.Proofs.Reading

/-!
# Doubles in order

The significand and the exponent of a double are in a normal form: as many bits as there is room
for. So doubles are compared by exponent and significand, and this is the order of the rational
numbers that they denote. What is in normal form is also read back from its bits, unless its
exponent is too large; so a multiple of a power of two that needs no more bits than a double has is
denoted by a double.
-/

namespace LinProg

namespace Double

open Float.Model Float.Model.UnpackedFloat

/-! ### Significands and exponents in normal form -/

theorem two_zpow_pos (e : ℤ) : (0 : ℚ) < 2 ^ e := zpow_pos two_pos e

theorem two_zpow_add (a b : ℤ) : (2 : ℚ) ^ (a + b) = 2 ^ a * 2 ^ b := zpow_add₀ two_ne_zero a b

theorem two_zpow_eq_mul {t e : ℤ} (h : t ≤ e) : (2 : ℚ) ^ e = 2 ^ (e - t).toNat * 2 ^ t := by
  rw [← zpow_natCast, ← two_zpow_add]
  congr 1
  omega

theorem two_pow_toNat (e : ℤ) : (2 : ℚ) ^ e.toNat = 2 ^ e * 2 ^ (-e).toNat := by
  rw [← zpow_natCast, ← zpow_natCast, ← two_zpow_add]
  congr 1
  omega

theorem mul_two_pow_scale (x : ℚ) (k : ℕ) (e : ℤ) : x * 2 ^ k * 2 ^ (e - k) = x * 2 ^ e := by
  rw [← zpow_natCast, mul_assoc, ← two_zpow_add, add_sub_cancel]

theorem targetExponent_eq (m : ℕ) (e : ℤ) :
    Format.binary64.targetExponent (totalExponent m e) = max (m.log2 + e - 52) (-1074) := by
  have htarget : ∀ x, Format.binary64.targetExponent x = max (x - 53) (-1074) := fun _ => rfl
  rw [htarget, totalExponent]
  omega

/-- A significand and an exponent as rounding leaves them: there are 53 bits, or fewer at the least
exponent. -/
structure IsRounded (m : ℕ) (e : ℤ) : Prop where
  pos : 0 < m
  lt : m < 2 ^ 53
  le : -1074 ≤ e
  full : 2 ^ 52 ≤ m ∨ e = -1074

namespace IsRounded

variable {m m' : ℕ} {e e' : ℤ}

theorem targetExponent_eq (h : IsRounded m e) :
    Format.binary64.targetExponent (totalExponent m e) = e := by
  have hlog : m.log2 ≤ 52 := Nat.lt_succ_iff.1 ((Nat.log2_lt h.pos.ne').2 h.lt)
  have hle := h.le
  rw [Double.targetExponent_eq]
  rcases h.full with hfull | rfl
  · rw [log2_eq hfull h.lt]
    omega
  · omega

/-- A magnitude is small beside the powers of two of higher exponents. -/
theorem lt_two_zpow (h : IsRounded m e) (he : e < e') : (m : ℚ) * 2 ^ e < 2 ^ 52 * 2 ^ e' := by
  calc (m : ℚ) * 2 ^ e
      < 2 ^ 53 * 2 ^ e := mul_lt_mul_of_pos_right (by exact_mod_cast h.lt) (two_zpow_pos e)
    _ = 2 ^ 52 * 2 ^ (e + 1) := by rw [two_zpow_add]; ring
    _ ≤ 2 ^ 52 * 2 ^ e' := by gcongr; exacts [one_le_two, he]

/-- No magnitude reaches the least one of a higher exponent. -/
theorem lt_of_lt (h : IsRounded m e) (h' : IsRounded m' e') (he : e < e') :
    (m : ℚ) * 2 ^ e < m' * 2 ^ e' := by
  have hfull : 2 ^ 52 ≤ m' := h'.full.resolve_right (by have := h.le; omega)
  refine (h.lt_two_zpow he).trans_le ?_
  exact mul_le_mul_of_nonneg_right (by exact_mod_cast hfull) (two_zpow_pos e').le

/-- Magnitudes are compared by their exponents, and those of equal exponent by their
significands. -/
theorem compare_eq (h : IsRounded m e) (h' : IsRounded m' e') :
    (compare e e').then (compare m m') = compare ((m : ℚ) * 2 ^ e) (m' * 2 ^ e') := by
  rcases lt_trichotomy e e' with he | rfl | he
  · rw [compare_lt_iff_lt.2 he, compare_lt_iff_lt.2 (h.lt_of_lt h' he)]
    rfl
  · rw [compare_eq_iff_eq.2 rfl]
    change compare m m' = _
    rcases lt_trichotomy m m' with hm | rfl | hm
    · rw [compare_lt_iff_lt.2 hm, eq_comm, compare_lt_iff_lt]
      exact mul_lt_mul_of_pos_right (by exact_mod_cast hm) (two_zpow_pos e)
    · rw [compare_eq_iff_eq.2 rfl, compare_eq_iff_eq.2 rfl]
    · rw [compare_gt_iff_gt.2 hm, eq_comm, compare_gt_iff_gt]
      exact mul_lt_mul_of_pos_right (by exact_mod_cast hm) (two_zpow_pos e)
  · rw [compare_gt_iff_gt.2 he, compare_gt_iff_gt.2 (h'.lt_of_lt h he)]
    rfl

end IsRounded

/-! ### Numbers with a sign -/

/-- A number with the given sign. -/
def signed : Sign → ℚ → ℚ
  | .negative, x => -x
  | .positive, x => x

section

variable (s s' : Sign) (x y : ℚ)

theorem signed_zero : signed s 0 = 0 := by
  cases s with
  | negative => exact neg_zero
  | positive => rfl

theorem abs_signed_eq : |signed s x| = |x| := by
  cases s with
  | negative => exact abs_neg x
  | positive => rfl

theorem abs_signed {x : ℚ} (h : 0 ≤ x) : |signed s x| = x := by
  rw [abs_signed_eq, abs_of_nonneg h]

theorem signed_sub : signed s x - signed s y = signed s (x - y) := by
  cases s with
  | negative => rw [signed, signed, signed, neg_sub_neg, neg_sub]
  | positive => rfl

theorem signed_mul : signed s x * y = signed s (x * y) := by
  cases s with
  | negative => exact neg_mul x y
  | positive => rfl

theorem signed_mul_signed : signed (s * s') (x * y) = signed s x * signed s' y := by
  cases s with
  | negative =>
    cases s' with
    | negative => exact (neg_mul_neg x y).symm
    | positive => exact (neg_mul x y).symm
  | positive =>
    cases s' with
    | negative => exact (mul_neg x y).symm
    | positive => rfl

theorem signed_div_signed : signed (s / s') (x / y) = signed s x / signed s' y := by
  cases s with
  | negative =>
    cases s' with
    | negative => exact (neg_div_neg_eq x y).symm
    | positive => exact (neg_div y x).symm
  | positive =>
    cases s' with
    | negative => exact (div_neg x).symm
    | positive => rfl

theorem cast_apply (n : ℕ) : ((s.apply n : ℤ) : ℚ) = signed s n := by
  cases s with
  | negative => exact Int.cast_neg _
  | positive => rfl

end

/-! ### The order of doubles -/

/-- The rational number that is denoted by what has been taken apart, zero if there is none. -/
def value : UnpackedFloat → ℚ
  | .finite s m e _ => signed s (m * 2 ^ e)
  | _ => 0

/-- What has been taken apart is zero, or has been rounded. -/
def IsNumber : UnpackedFloat → Prop
  | .zero _ => True
  | .finite _ m e _ => IsRounded m e
  | _ => False

variable {v w d : Float}

theorem toRat_eq_value (v : Float) : toRat v = value (unpacked v) := by
  rw [toRat]
  cases unpacked v with
  | finite s m e h => exact (congrArg (· * (2 : ℚ) ^ e) (cast_apply s m)).trans (signed_mul s _ _)
  | _ => rfl

theorem toRat_of_unpacked {u : UnpackedFloat} (h : unpacked v = u) : toRat v = value u := by
  rw [toRat_eq_value, h]

theorem value_zero (s : Sign) : value (.zero s) = 0 := rfl

theorem value_finite {s : Sign} {m : ℕ} {e : ℤ} {h : 0 < m} :
    value (.finite s m e h) = signed s (m * 2 ^ e) := rfl

theorem magnitude_pos {m : ℕ} (h : 0 < m) (e : ℤ) : 0 < (m : ℚ) * 2 ^ e :=
  mul_pos (by exact_mod_cast h) (two_zpow_pos e)

/-- A finite double is a zero, or it has a significand and an exponent in normal form. -/
theorem unpacked_cases (hv : v.isFinite = true) : (∃ s, unpacked v = .zero s) ∨
    ∃ s m e h, unpacked v = .finite s m e h ∧ IsRounded m e ∧ e ≤ 971 := by
  rw [isFinite_eq] at hv
  cases hu : unpacked v with
  | zero s => exact .inl ⟨s, rfl⟩
  | finite s m e h =>
    refine .inr ⟨s, m, e, h, rfl, ?_⟩
    have hmantissa : (@unpackMantissa .binary64 v.toModel.toBits.toBitVec).toNat < 2 ^ 52 :=
      BitVec.isLt _
    rcases unpack_eq_finite hu with ⟨-, hm, rfl⟩ | ⟨hpos, hlt, hm, rfl⟩
    · exact ⟨⟨h, by omega, le_rfl, .inr rfl⟩, by omega⟩
    · exact ⟨⟨h, by omega, by omega, .inl (by omega)⟩, by omega⟩
  | _ => rw [hu] at hv; cases hv

theorem isNumber_unpacked (hv : v.isFinite = true) : IsNumber (unpacked v) := by
  rcases unpacked_cases hv with ⟨s, hu⟩ | ⟨s, m, e, h, hu, hm, -⟩
  · rw [hu]
    trivial
  · rw [hu]
    exact hm

theorem compare_neg_neg (x y : ℚ) : compare (-x) (-y) = (compare x y).swap := by
  rcases lt_trichotomy x y with h | rfl | h
  · rw [compare_gt_iff_gt.2 (neg_lt_neg h), compare_lt_iff_lt.2 h]
    rfl
  · rw [compare_eq_iff_eq.2 rfl, compare_eq_iff_eq.2 rfl]
    rfl
  · rw [compare_lt_iff_lt.2 (neg_lt_neg h), compare_gt_iff_gt.2 h]
    rfl

/-- The comparison of numbers is that of the rational numbers that they denote. -/
theorem compare_eq {u u' : UnpackedFloat} (h : IsNumber u) (h' : IsNumber u') :
    u.compare u' = some (compare (value u) (value u')) := by
  rcases u with _ | _ | s | ⟨_ | _, m, e, hm⟩ <;>
    rcases u' with _ | _ | s' | ⟨_ | _, m', e', hm'⟩ <;> try contradiction
  all_goals rw [UnpackedFloat.compare, Option.some_inj]
  all_goals simp only [value, signed]
  case zero.zero => rfl
  case zero.finite.negative =>
    exact (compare_gt_iff_gt.2 (neg_neg_of_pos (magnitude_pos hm' e'))).symm
  case zero.finite.positive => exact (compare_lt_iff_lt.2 (magnitude_pos hm' e')).symm
  case finite.negative.zero =>
    exact (compare_lt_iff_lt.2 (neg_neg_of_pos (magnitude_pos hm e))).symm
  case finite.positive.zero => exact (compare_gt_iff_gt.2 (magnitude_pos hm e)).symm
  case finite.negative.finite.negative => rw [h.compare_eq h', compare_neg_neg]
  case finite.positive.finite.positive => exact h.compare_eq h'
  case finite.negative.finite.positive =>
    exact (compare_lt_iff_lt.2
      ((neg_neg_of_pos (magnitude_pos hm e)).trans (magnitude_pos hm' e'))).symm
  case finite.positive.finite.negative =>
    exact (compare_gt_iff_gt.2
      ((neg_neg_of_pos (magnitude_pos hm' e')).trans (magnitude_pos hm e))).symm

section

variable (hv : v.isFinite = true) (hw : w.isFinite = true)

include hv hw

theorem lt_iff_toRat : v < w ↔ toRat v < toRat w := by
  rw [lt_iff, UnpackedFloat.lt, compare_eq (isNumber_unpacked hv) (isNumber_unpacked hw),
    beq_iff_eq, Option.some_inj, compare_lt_iff_lt, toRat_eq_value, toRat_eq_value]

theorem le_iff_toRat : v ≤ w ↔ toRat v ≤ toRat w := by
  rw [le_iff, UnpackedFloat.le, compare_eq (isNumber_unpacked hv) (isNumber_unpacked hw),
    Option.any_some, Ordering.isLE_iff_ne_gt, toRat_eq_value, toRat_eq_value]
  exact compare_le_iff_le

theorem beq_iff_toRat : (v == w) = true ↔ toRat v = toRat w := by
  rw [beq_eq, UnpackedFloat.beq, compare_eq (isNumber_unpacked hv) (isNumber_unpacked hw),
    beq_iff_eq, Option.some_inj, compare_eq_iff_eq, toRat_eq_value, toRat_eq_value]

end

/-! ### Infinite doubles and turned signs in the order -/

theorem le_of_infinity (hv : v.isFinite = true) (hw : unpacked w = .infinity .positive) :
    v ≤ w := by
  rw [le_iff, hw]
  rcases unpacked_cases hv with ⟨s, hu⟩ | ⟨_ | _, m, e, h, hu, -⟩ <;> rw [hu] <;> rfl

theorem infinity_le (hv : v.isFinite = true) (hw : unpacked w = .infinity .negative) :
    w ≤ v := by
  rw [le_iff, hw]
  rcases unpacked_cases hv with ⟨s, hu⟩ | ⟨_ | _, m, e, h, hu, -⟩ <;> rw [hu] <;> rfl

/-- What lies between finite doubles is finite. -/
theorem isFinite_of_le_of_le (hv : v.isFinite = true) (hw : w.isFinite = true) (hvd : v ≤ d)
    (hdw : d ≤ w) : d.isFinite = true := by
  rw [le_iff] at hvd hdw
  rw [isFinite_eq]
  cases hd : unpacked d with
  | zero s => rfl
  | finite s m e h => rfl
  | notANumber =>
    rw [hd] at hdw
    cases hdw
  | infinity s =>
    rw [hd] at hvd hdw
    cases s with
    | negative =>
      rcases unpacked_cases hv with ⟨s, hu⟩ | ⟨_ | _, m, e, h, hu, -⟩ <;>
        rw [hu] at hvd <;> cases hvd
    | positive =>
      rcases unpacked_cases hw with ⟨s, hu⟩ | ⟨_ | _, m, e, h, hu, -⟩ <;>
        rw [hu] at hdw <;> cases hdw

theorem compare_neg (u u' : UnpackedFloat) : u.neg.compare u'.neg = u'.compare u := by
  rcases u with (_ | _) | _ | (_ | _) | ⟨_ | _, m, e, h⟩ <;>
    rcases u' with (_ | _) | _ | (_ | _) | ⟨_ | _, m', e', h'⟩ <;> try rfl
  all_goals
    have he : compare e' e = (compare e e').swap := Std.OrientedOrd.eq_swap
    have hm : compare m' m = (compare m m').swap := Std.OrientedOrd.eq_swap
    simp [UnpackedFloat.compare, UnpackedFloat.neg, he, hm, Ordering.swap_then]

/-- Turning the signs of two doubles turns their order. -/
theorem neg_le_neg_iff_le : -v ≤ -w ↔ w ≤ v := by
  rw [le_iff, le_iff, unpacked_neg, unpacked_neg, UnpackedFloat.le, compare_neg]
  rfl

theorem neg_neg_eq (v : Float) : - -v = v := by
  refine unpacked_inj ?_
  rw [unpacked_neg, unpacked_neg]
  rcases unpacked v with (_ | _) | _ | (_ | _) | ⟨_ | _, m, e, h⟩ <;> rfl

theorem isFinite_neg (hv : v.isFinite = true) : (-v).isFinite = true := by
  rw [isFinite_eq, unpacked_neg]
  rcases unpacked_cases hv with ⟨s, hu⟩ | ⟨s, m, e, h, hu, -⟩ <;> rw [hu] <;> rfl

/-! ### Packing what has been rounded -/

section

variable {s : Sign} {m : ℕ} {e : ℤ} {h : 0 < m}

theorem finite_congr {m' : ℕ} {e' : ℤ} {h' : 0 < m'} (hm : m' = m) (he : e' = e) :
    UnpackedFloat.finite s m' e' h' = .finite s m e h := by
  subst hm he
  rfl

theorem unpack_normal {x : BitVec 11} (y : BitVec 52) (hpos : 0 < x.toNat) (hlt : x.toNat < 2047) :
    UnpackedFloat.unpack .binary64 (packComponents .binary64 s x y) =
      .finite s (2 ^ 52 + y.toNat) (x.toNat - 1075) (by positivity) := by
  have hones : x ≠ -1#11 := by
    rintro rfl
    exact absurd hlt (by decide)
  have hzeroes : x ≠ 0#11 := by
    rintro rfl
    exact absurd hpos (by decide)
  rw [UnpackedFloat.unpack]
  simp only [unpackMantissa_packComponents, unpackExponent_packComponents, ofBitVec_unpackSign]
  rw [if_neg hones, if_neg hzeroes]
  exact finite_congr (toNat_one_append y) rfl

theorem unpack_subnormal {y : BitVec 52} (hpos : 0 < y.toNat) :
    UnpackedFloat.unpack .binary64 (packComponents .binary64 s 0#11 y) =
      .finite s y.toNat (-1074) hpos := by
  have hzeroes : y ≠ 0#52 := by
    rintro rfl
    exact absurd hpos (by decide)
  have hones : 0#11 ≠ -1#11 := by decide
  rw [UnpackedFloat.unpack]
  simp only [unpackMantissa_packComponents, unpackExponent_packComponents, ofBitVec_unpackSign]
  rw [if_neg hones, if_pos trivial, dif_neg hzeroes]
  exact finite_congr rfl rfl

/-- A magnitude whose exponent is too large becomes infinite. -/
theorem unpacked_packed_infinity (he : 971 < e) :
    unpacked (packed (.finite s m e h)) = .infinity s := by
  have hbias : ((Format.binary64.exponentBias : Nat) : Int) = 1023 := rfl
  have hwidth : ((Format.binary64.mantissaBitsWithoutImplicit : Nat) : Int) = 52 := rfl
  change UnpackedFloat.unpack .binary64 (UnpackedFloat.pack .binary64 (.finite s m e h)) = _
  rw [UnpackedFloat.pack]
  simp only [hbias, hwidth]
  rw [if_pos (by omega)]
  cases s <;> rfl

namespace IsRounded

variable (hm : IsRounded m e)

include hm

/-- What has been rounded is read back from its bits, unless its exponent is too large. -/
theorem unpacked_packed (he : e ≤ 971) :
    unpacked (packed (.finite s m e h)) = .finite s m e h := by
  have hle := hm.le
  have hlt := hm.lt
  have hbias : ((Format.binary64.exponentBias : Nat) : Int) = 1023 := rfl
  have hwidth : ((Format.binary64.mantissaBitsWithoutImplicit : Nat) : Int) = 52 := rfl
  have hbits : Format.binary64.mantissaBits = 53 := rfl
  have hmantissa : (BitVec.ofNat 52 m).toNat = m % 2 ^ 52 := BitVec.toNat_ofNat _ _
  have hexponent : (BitVec.ofNat 11 (e + 1023 + 52).toNat).toNat = (e + 1075).toNat := by
    rw [BitVec.toNat_ofNat, Nat.mod_eq_of_lt (by omega)]
    omega
  change UnpackedFloat.unpack .binary64 (UnpackedFloat.pack .binary64 (.finite s m e h)) = _
  rw [UnpackedFloat.pack]
  simp only [hbias, hwidth, hbits]
  rw [if_neg (by omega)]
  split
  · next hlog =>
    have hfull : 2 ^ 52 ≤ m := by
      rw [show 52 = m.log2 by omega]
      exact Nat.log2_self_le h.ne'
    refine (unpack_normal _ ?_ ?_).trans (finite_congr ?_ ?_)
    · omega
    · omega
    · rw [hmantissa]
      omega
    · rw [hexponent]
      omega
  · next hlog =>
    have hsmall : m < 2 ^ 52 := not_le.1 fun hfull => hlog (by rw [log2_eq hfull hlt])
    obtain rfl : e = -1074 := hm.full.resolve_left (by omega)
    have hmantissa' : (BitVec.ofNat 52 m).toNat = m := hmantissa.trans (Nat.mod_eq_of_lt hsmall)
    exact (unpack_subnormal (by omega)).trans (finite_congr hmantissa' rfl)

theorem isFinite_packed (he : e ≤ 971) : (packed (.finite s m e h)).isFinite = true := by
  rw [isFinite_eq, hm.unpacked_packed he]
  rfl

theorem toRat_packed (he : e ≤ 971) : toRat (packed (.finite s m e h)) = signed s (m * 2 ^ e) :=
  toRat_of_unpacked (hm.unpacked_packed he)

/-- Each double is below the magnitudes whose exponent is too large. -/
theorem abs_toRat_lt (he : 971 < e) (hv : v.isFinite = true) : |toRat v| < m * 2 ^ e := by
  rcases unpacked_cases hv with ⟨s', hu⟩ | ⟨s', m', e', h', hu, hm', he'⟩
  · rw [toRat_of_unpacked hu, value_zero, abs_zero]
    exact magnitude_pos hm.pos e
  · rw [toRat_of_unpacked hu, value_finite, abs_signed _ (magnitude_pos h' e').le]
    exact hm'.lt_of_lt hm (he'.trans_lt he)

end IsRounded

end

/-! ### Numbers that are doubles -/

/-- The number is denoted by a finite double. -/
def IsDouble (x : ℚ) : Prop := ∃ d : Float, d.isFinite = true ∧ toRat d = x

theorem isFinite_zero : (0 : Float).isFinite = true := rfl

theorem isFinite_one : (1 : Float).isFinite = true := rfl

theorem isDouble_zero : IsDouble 0 := ⟨0, isFinite_zero, toRat_zero⟩

theorem isDouble_one : IsDouble 1 := ⟨1, isFinite_one, toRat_one⟩

theorem IsDouble.neg {x : ℚ} (h : IsDouble x) : IsDouble (-x) := by
  obtain ⟨d, hd, rfl⟩ := h
  exact ⟨-d, isFinite_neg hd, toRat_neg d⟩

theorem IsRounded.isDouble {m : ℕ} {e : ℤ} (h : IsRounded m e) (he : e ≤ 971) :
    IsDouble (m * 2 ^ e) :=
  ⟨packed (.finite .positive m e h.pos), h.isFinite_packed he, h.toRat_packed he⟩

/-- A multiple of a power of two is a double if its factor has at most 53 bits. -/
theorem isDouble_natCast_mul {n : ℕ} (hn : n ≤ 2 ^ 53) {e : ℤ} (he : -1074 ≤ e) (he' : e ≤ 970) :
    IsDouble (n * 2 ^ e) := by
  rcases Nat.eq_zero_or_pos n with rfl | hpos
  · rw [Nat.cast_zero, zero_mul]
    exact isDouble_zero
  rcases hn.lt_or_eq with hlt | rfl
  · -- As many zeros are shifted in as there is room for.
    obtain ⟨k, hk⟩ : ∃ k, min (52 - n.log2) (e + 1074).toNat = k := ⟨_, rfl⟩
    have hlog : n.log2 ≤ 52 := Nat.lt_succ_iff.1 ((Nat.log2_lt hpos.ne').2 hlt)
    have hlog' := log2_mul_two_pow hpos.ne' k
    have hrounded : IsRounded (n * 2 ^ k) (e - k) := by
      refine ⟨by positivity, ?_, by omega, ?_⟩
      · rw [← Nat.log2_lt (by positivity)]
        omega
      · refine or_iff_not_imp_right.2 fun hne => ?_
        rw [← Nat.le_log2 (by positivity)]
        omega
    have hdouble := hrounded.isDouble (by omega)
    rwa [Nat.cast_mul, Nat.cast_pow, Nat.cast_two, mul_two_pow_scale] at hdouble
  · have hrounded : IsRounded (2 ^ 52) (e + 1) :=
      ⟨by positivity, by norm_num, by omega, .inl le_rfl⟩
    have hdouble := hrounded.isDouble (by omega)
    have hscale : ((2 ^ 52 : ℕ) : ℚ) * 2 ^ (e + 1) = (2 ^ 53 : ℕ) * 2 ^ e := by
      rw [two_zpow_add]
      push_cast
      ring
    rwa [hscale] at hdouble

theorem isDouble_intCast_mul {n : ℤ} (hn : n.natAbs ≤ 2 ^ 53) {e : ℤ} (he : -1074 ≤ e)
    (he' : e ≤ 970) : IsDouble (n * 2 ^ e) := by
  have hdouble := isDouble_natCast_mul hn he he'
  rcases Int.natAbs_eq n with h | h
  · rw [h]
    exact hdouble
  · rw [h, Int.cast_neg, neg_mul]
    exact hdouble.neg

theorem isDouble_intCast {n : ℤ} (hn : n.natAbs ≤ 2 ^ 53) : IsDouble n := by
  have hdouble := isDouble_intCast_mul hn (e := 0) (by decide) (by decide)
  rwa [zpow_zero, Rat.mul_one] at hdouble

end Double

end LinProg
