import LinProg.Proofs.Operations

/-!
# Whole doubles and fractional parts

Rounding down and cutting off the fractional part are exact: below 2⁵² the magnitude passes through
an unsigned word without loss, and from there on every double is whole. The fractional part of a
double, and its difference from a nearby whole number, need no more bits than the double; so they
are not rounded.
-/

namespace LinProg

namespace Double

open Float.Model Float.Model.UnpackedFloat

variable {v w : Float} {x : ℚ}

/-! ### Rounding down -/

/-- Cutting the bits behind the point off a magnitude rounds it down. -/
theorem roundToInt_positive (m : ℕ) (e : ℤ) :
    UnpackedFloat.roundToInt .positive m e = ⌊(m : ℚ) * 2 ^ e⌋ := by
  obtain ⟨k, hk⟩ : ∃ k, e.toNat = k := ⟨_, rfl⟩
  obtain ⟨j, hj⟩ : ∃ j, (-(e - k)).toNat = j := ⟨_, rfl⟩
  have hrepresents := (Represents.exactly (m * 2 ^ k)).shiftRight j
  have hvalue : ((m * 2 ^ k : ℕ) : ℚ) / 2 ^ j = m * 2 ^ e := by
    have hexponent : (k : ℤ) = e + j := by omega
    have hpos : (0 : ℚ) < 2 ^ j := by positivity
    rw [div_eq_iff hpos.ne', Nat.cast_mul, Nat.cast_pow, Nat.cast_two, ← zpow_natCast, hexponent,
      two_zpow_add, zpow_natCast, mul_assoc]
  rw [hvalue] at hrepresents
  change ((ExtendedMantissa.ofMantissaAndAccuracy (m <<< (e - 0).toNat) .exact >>>
    (0 - (e - (e - 0).toNat)).toNat).mantissa : ℤ) = _
  rw [sub_zero, zero_sub, hk, hj, Nat.shiftLeft_eq]
  exact (Int.floor_eq_iff.2 ⟨hrepresents.le, hrepresents.lt⟩).symm

/-- A magnitude below 2⁶⁴ passes into an unsigned word with its fractional part cut off. -/
theorem toNat_toUInt64 (hv : v.isFinite = true) (h : 0 ≤ toRat v) (hlt : toRat v < 2 ^ 64) :
    (v.toUInt64.toNat : ℤ) = ⌊toRat v⌋ := by
  have hfloor : ⌊toRat v⌋ < 2 ^ 64 := Int.floor_lt.2 (by exact_mod_cast hlt)
  have hnonneg : 0 ≤ ⌊toRat v⌋ := Int.floor_nonneg.2 h
  have hint : (unpacked v).toInt 0 (UInt64.size - 1) = ⌊toRat v⌋ := by
    rcases unpacked_cases hv with ⟨s, hu⟩ | ⟨s, m, e, hm, hu, -⟩
    · rw [toRat_of_unpacked hu, hu, value_zero, Int.floor_zero]
      rfl
    · rw [toRat_of_unpacked hu, value_finite] at h ⊢
      cases s with
      | negative => exact absurd h (not_le.2 (neg_neg_of_pos (magnitude_pos hm e)))
      | positive =>
        rw [hu]
        exact roundToInt_positive m e
  change ((UInt64.ofNatClamp ((unpacked v).toInt 0 (UInt64.size - 1)).toNat).toNat : ℤ) = _
  rw [hint, UInt64.toNat_ofNatClamp_of_lt (by rw [UInt64.size]; omega), Int.toNat_of_nonneg hnonneg]

theorem wholeFrom_spec : wholeFrom.isFinite = true ∧ toRat wholeFrom = 2 ^ 52 := by
  have hu : unpacked wholeFrom = .finite .positive (2 ^ 52) 0 (by decide) := rfl
  rw [isFinite_eq, toRat_of_unpacked hu, hu, value_finite, signed]
  exact ⟨rfl, by norm_num⟩

/-- From 2⁵² on every double is whole. -/
theorem eq_floor_of_le (hv : v.isFinite = true) (h : 2 ^ 52 ≤ |toRat v|) :
    toRat v = ⌊toRat v⌋ := by
  rcases toRat_eq_or_lt hv 0 with ⟨n, hn⟩ | ⟨-, hlt⟩
  · rw [zpow_zero, Rat.mul_one] at hn
    rw [hn, Int.floor_intCast]
  · rw [zpow_zero, Rat.mul_one] at hlt
    exact absurd h (not_le.2 hlt)

/-- A magnitude below 2⁵² comes back from the unsigned word rounded down. -/
theorem whole_spec (hv : v.isFinite = true) (hlt : |toRat v| < 2 ^ 52) :
    v.abs.toUInt64.toFloat.isFinite = true ∧ toRat v.abs.toUInt64.toFloat = ⌊|toRat v|⌋ := by
  have hword := toNat_toUInt64 (v := v.abs) (by rwa [isFinite_abs])
    (by rw [toRat_abs]; exact abs_nonneg _) (by rw [toRat_abs]; linarith)
  rw [toRat_abs] at hword
  have hfloor : ⌊|toRat v|⌋ < 2 ^ 52 := Int.floor_lt.2 (by exact_mod_cast hlt)
  rw [← hword, Int.cast_natCast]
  exact toRat_packed_ofNat (n := v.abs.toUInt64.toNat) (by omega)

/-- The whole part of the magnitude of a double below zero, with its sign turned and one less if
something was cut off, is the double rounded down. -/
theorem turned_whole_spec {whole : Float} {n : ℤ} (hv : v.isFinite = true)
    (hwhole : whole.isFinite = true) (hvalue : toRat whole = n) (hn : n.natAbs < 2 ^ 52)
    (hle : n ≤ -toRat v) (hgt : -toRat v < n + 1) :
    (if v < -whole then -whole - 1 else -whole).isFinite = true ∧
      toRat (if v < -whole then -whole - 1 else -whole) = ⌊toRat v⌋ := by
  have hminus := isFinite_neg hwhole
  have hlt : v < -whole ↔ toRat v < -n := by rw [lt_iff_toRat hv hminus, toRat_neg, hvalue]
  split
  · next hbelow =>
    rw [hlt] at hbelow
    have hfloor : ⌊toRat v⌋ = -n - 1 := by
      rw [Int.floor_eq_iff]
      push_cast
      exact ⟨by linarith, by linarith⟩
    have hrounds := rounds_sub hminus isFinite_one
    rw [toRat_neg, hvalue, toRat_one] at hrounds
    rw [hfloor]
    push_cast
    exact hrounds.exact (by exact_mod_cast isDouble_intCast (n := -n - 1) (by omega))
  · next hnot =>
    rw [hlt, not_lt] at hnot
    have hfloor : ⌊toRat v⌋ = -n := by
      rw [Int.floor_eq_iff]
      push_cast
      exact ⟨by linarith, by linarith⟩
    rw [hfloor, toRat_neg, hvalue, Int.cast_neg]
    exact ⟨hminus, rfl⟩

/-- Rounding down is exact. -/
theorem floor_spec (hv : v.isFinite = true) :
    (floor v).isFinite = true ∧ toRat (floor v) = ⌊toRat v⌋ := by
  obtain ⟨hfrom, hfrom'⟩ := wholeFrom_spec
  have hlt : v.abs < wholeFrom ↔ |toRat v| < 2 ^ 52 := by
    rw [lt_iff_toRat (by rwa [isFinite_abs]) hfrom, hfrom', toRat_abs]
  have hneg : v < 0 ↔ toRat v < 0 := by rw [lt_iff_toRat hv isFinite_zero, toRat_zero]
  unfold floor
  split
  · next hzero =>
    rw [beq_iff_toRat hv isFinite_zero, toRat_zero] at hzero
    exact ⟨hv, by rw [hzero, Int.floor_zero, Int.cast_zero]⟩
  · split
    · next hsmall =>
      rw [hlt] at hsmall
      obtain ⟨hwhole, hvalue⟩ := whole_spec hv hsmall
      dsimp only
      split
      · next hbelow =>
        rw [hneg] at hbelow
        have hbound : ⌊|toRat v|⌋ < 2 ^ 52 := Int.floor_lt.2 (by exact_mod_cast hsmall)
        have hnonneg : 0 ≤ ⌊|toRat v|⌋ := Int.floor_nonneg.2 (abs_nonneg _)
        have hle := Int.floor_le |toRat v|
        have hgt := Int.lt_floor_add_one |toRat v|
        exact turned_whole_spec hv hwhole hvalue (by omega) (hle.trans_eq (abs_of_neg hbelow))
          ((abs_of_neg hbelow).symm.trans_lt hgt)
      · next habove =>
        rw [hneg, not_lt] at habove
        rw [abs_of_nonneg habove] at hvalue
        exact ⟨hwhole, hvalue⟩
    · next hlarge =>
      rw [hlt, not_lt] at hlarge
      exact ⟨hv, eq_floor_of_le hv hlarge⟩

/-- Below 2⁶³ the integer part of what is not negative is cut off exactly. -/
theorem truncate_eq (hv : v.isFinite = true) (h : 0 ≤ toRat v) (hlt : toRat v < 2 ^ 63) :
    truncate v = ⌊toRat v⌋ := by
  have habs : toRat v.abs = toRat v := by rw [toRat_abs, abs_of_nonneg h]
  have hword := toNat_toUInt64 (v := v.abs) (by rwa [isFinite_abs]) (by rwa [habs])
    (by rw [habs]; linarith)
  rw [habs] at hword
  have hfloor : ⌊toRat v⌋ < 2 ^ 63 := Int.floor_lt.2 (by exact_mod_cast hlt)
  have hbelow : ¬ v < 0 := by
    rw [lt_iff_toRat hv isFinite_zero, toRat_zero]
    exact not_lt.2 h
  rw [truncate, if_neg hbelow, hword]
  exact min_eq_left (Int.le_sub_one_of_lt hfloor)

/-- A double equals its own integer part exactly if it denotes an integer. -/
theorem isWhole_iff (hv : v.isFinite = true) :
    Arithmetic.isWhole v = true ↔ ∃ n : ℤ, toRat v = n := by
  obtain ⟨hfloor, hvalue⟩ := floor_spec hv
  change (v.isFinite && floor v == v) = true ↔ _
  rw [hv, Bool.true_and, beq_iff_toRat hfloor hv, hvalue]
  constructor
  · intro h
    exact ⟨_, h.symm⟩
  · rintro ⟨n, hn⟩
    rw [hn, Int.floor_intCast]

/-! ### Differences that are not rounded -/

/-- A finite double is a whole multiple, by a factor of 53 bits, of a power of two. -/
theorem exists_toRat_eq (hv : v.isFinite = true) : ∃ (k : ℤ) (e : ℤ),
    toRat v = k * 2 ^ e ∧ k.natAbs < 2 ^ 53 ∧ -1074 ≤ e ∧ e ≤ 971 := by
  rcases unpacked_cases hv with ⟨s, hu⟩ | ⟨s, m, e, h, hu, hm, he⟩
  · exact ⟨0, 0, by rw [toRat_of_unpacked hu, value_zero, Int.cast_zero, zero_mul], by decide,
      by decide, by decide⟩
  · refine ⟨s.apply m, e, ?_, ?_, hm.le, he⟩
    · rw [toRat_of_unpacked hu, value_finite, cast_apply, signed_mul]
    · have hlt := hm.lt
      cases s with
      | negative =>
        change (-(m : ℤ)).natAbs < _
        omega
      | positive =>
        change (m : ℤ).natAbs < _
        omega

/-- The difference of a double and a whole number at most one away needs no more bits than the
double, unless the double is smaller than the difference. -/
theorem isDouble_sub_intCast (hv : v.isFinite = true) {n : ℤ} (hnear : |toRat v - n| ≤ 1)
    (hsmall : |toRat v - n| ≤ |toRat v|) : IsDouble (toRat v - n) := by
  obtain ⟨k, e, hk, hbits, he, he'⟩ := exists_toRat_eq hv
  rcases le_or_gt 0 e with hwhole | hfraction
  · have hdiff : toRat v - n = ((k * 2 ^ e.toNat - n : ℤ) : ℚ) := by
      rw [hk, two_zpow_eq_mul hwhole, sub_zero, zpow_zero]
      push_cast
      ring
    rw [hdiff] at hnear ⊢
    have hone : |k * 2 ^ e.toNat - n| ≤ 1 := by exact_mod_cast hnear
    exact isDouble_intCast (by rw [abs_le] at hone; omega)
  · have hdiff : toRat v - n = ((k - n * 2 ^ (-e).toNat : ℤ) : ℚ) * 2 ^ e := by
      have hone : (1 : ℚ) = 2 ^ (-e).toNat * 2 ^ e := by
        rw [← zpow_natCast, ← two_zpow_add, Int.toNat_of_nonneg (by omega),
          neg_add_cancel, zpow_zero]
      rw [hk]
      push_cast
      rw [sub_mul, mul_assoc, ← hone, Rat.mul_one]
    rw [hdiff, hk, abs_mul, abs_mul] at hsmall
    have hle := le_of_mul_le_mul_right hsmall (abs_pos.2 (two_zpow_pos e).ne')
    have hle' : |k - n * 2 ^ (-e).toNat| ≤ |k| := by exact_mod_cast hle
    rw [hdiff]
    refine isDouble_intCast_mul ?_ he (by omega)
    rw [Int.abs_eq_natAbs, Int.abs_eq_natAbs] at hle'
    omega

/-- A double is left with its fractional part when it is rounded down. -/
theorem sub_floor_spec (hv : v.isFinite = true) (h : 0 ≤ toRat v) :
    (v - floor v).isFinite = true ∧ toRat (v - floor v) = Int.fract (toRat v) := by
  obtain ⟨hfloor, hfloor'⟩ := floor_spec hv
  have hrounds := rounds_sub hv hfloor
  rw [hfloor'] at hrounds
  have hfract : 0 ≤ toRat v - ⌊toRat v⌋ := Int.fract_nonneg _
  refine hrounds.exact (isDouble_sub_intCast hv ?_ ?_)
  · rw [abs_of_nonneg hfract]
    exact (Int.fract_lt_one _).le
  · have hnonneg : (0 : ℚ) ≤ ⌊toRat v⌋ := by exact_mod_cast Int.floor_nonneg.2 h
    rw [abs_of_nonneg hfract, abs_of_nonneg h]
    linarith

/-- A number that is within a half of a whole number is not smaller than its distance from it. -/
theorem abs_sub_intCast_le {n : ℤ} (h : |x - n| ≤ 1 / 2) : |x - n| ≤ |x| := by
  rcases eq_or_ne n 0 with rfl | hn
  · rw [Int.cast_zero, sub_zero]
  · have hone : (1 : ℚ) ≤ |(n : ℚ)| := by exact_mod_cast Int.one_le_abs hn
    have htriangle := abs_sub_abs_le_abs_sub (n : ℚ) x
    rw [abs_sub_comm] at htriangle
    linarith

/-- The distance of a double from a nearby whole number is not rounded. -/
theorem toRat_sub_of_near (hv : v.isFinite = true) (hw : w.isFinite = true) {n : ℤ}
    (hn : toRat w = n) (hnear : |toRat v - n| ≤ 1 / 2) :
    (v - w).isFinite = true ∧ toRat (v - w) = toRat v - n := by
  have hrounds := rounds_sub hv hw
  rw [hn] at hrounds
  exact hrounds.exact (isDouble_sub_intCast hv (by linarith) (abs_sub_intCast_le hnear))

end Double

end LinProg
