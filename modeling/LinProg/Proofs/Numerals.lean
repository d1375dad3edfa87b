import LinProg.Json.Numeral
import LinProg.Proofs.Operations

/-!
# Numerals as doubles

The nearest double of a numeral is the number that it writes, rounded once, however many digits it
has and wherever its point stands. The other way to read a numeral goes by the digits that fit into
a word. If all of them fit, they lose nothing, and if they and the power of ten are denoted by
doubles, the numeral is rounded once as well. Since a word bounds the digits that are kept, a
numeral can be without a value by its power of ten only.
-/

namespace LinProg

namespace Numeral

open Double

variable {n : Numeral}

/-- The number that a numeral writes. -/
def value (n : Numeral) : ℚ :=
  signed (if n.negative then .negative else .positive) (n.significand * 10 ^ n.exponent)

/-! ### Digits of a word -/

theorem le_foldl_digits (significand : Nat) (digits : List Nat) :
    significand ≤ digits.foldl (fun n digit => n * 10 + digit) significand := by
  induction digits generalizing significand with
  | nil => exact le_rfl
  | cons digit rest ih => exact le_trans (by omega) (ih (significand * 10 + digit))

/-- Digits that fit into a word are all kept. -/
theorem appendDigits_eq {significand : Nat} {digits : List Nat}
    (h : digits.foldl (fun n digit => n * 10 + digit) significand < 2 ^ 64) :
    appendDigits significand digits =
      (digits.foldl (fun n digit => n * 10 + digit) significand, []) := by
  induction digits generalizing significand with
  | nil => rfl
  | cons digit rest ih =>
    have hfits : significand * 10 + digit < Nat.pow 2 64 := (le_foldl_digits _ rest).trans_lt h
    rw [appendDigits, if_pos hfits]
    exact ih h

theorem length_appendDigits_le (significand : Nat) (digits : List Nat) :
    (appendDigits significand digits).2.length ≤ digits.length := by
  induction digits generalizing significand with
  | nil => exact le_rfl
  | cons digit rest ih =>
    rw [appendDigits]
    split
    · exact (ih _).trans (Nat.le_succ _)
    · exact le_rfl

/-- Whatever the digits are, those that are kept fit into a word. -/
theorem wordParts_lt (n : Numeral) : n.wordParts.1 < 2 ^ 64 :=
  appendDigits_lt _ _ (appendDigits_lt _ _ (by decide))

/-- The power of ten of the digits that are kept is at most that of the digits before the point. -/
theorem wordParts_le (n : Numeral) : n.wordParts.2 ≤ n.writtenExponent + n.whole.length := by
  have hwhole := length_appendDigits_le 0 n.whole
  have hfraction := length_appendDigits_le (appendDigits 0 n.whole).1 n.fraction
  dsimp only [wordParts]
  omega

/-- A numeral whose digits fit into a word loses nothing. -/
theorem wordParts_eq (h : n.significand < 2 ^ 64) : n.wordParts = (n.significand, n.exponent) := by
  rw [significand, ofDigits, List.foldl_append] at h
  have hwhole := appendDigits_eq ((le_foldl_digits _ n.fraction).trans_lt h)
  simp only [wordParts, hwhole, appendDigits_eq h, significand, ofDigits, List.foldl_append,
    exponent, List.length_nil, Nat.cast_zero, add_zero, sub_zero]

/-! ### The nearest double -/

theorem foldl_digits_lt {digits : List Nat} (h : ∀ digit ∈ digits, digit < 10)
    (significand : Nat) : digits.foldl (fun n digit => n * 10 + digit) significand <
      (significand + 1) * 10 ^ digits.length := by
  induction digits generalizing significand with
  | nil => simp
  | cons digit rest ih =>
    obtain ⟨hdigit, hrest⟩ := List.forall_mem_cons.1 h
    rw [List.foldl_cons, List.length_cons, pow_succ', ← mul_assoc]
    exact (ih hrest _).trans_le (Nat.mul_le_mul_right _ (by omega))

/-- The nearest double of a numeral is the number that it writes, rounded, also where its exponent
is so large or so small that no power of ten is formed. -/
theorem rounds_nearest (hdigits : ∀ digit ∈ n.whole ++ n.fraction, digit < 10) :
    Rounds n.nearest (n.significand * 10 ^ n.exponent) := by
  rw [nearest]
  split
  · next h =>
    rcases h with hzero | hsmall
    · rw [hzero, Nat.cast_zero, zero_mul]
      exact rounds_zero .positive
    · have hlt : (n.significand : ℚ) < 10 ^ (n.whole ++ n.fraction).length := by
        have hlt := foldl_digits_lt hdigits 0
        rw [zero_add, Nat.one_mul] at hlt
        exact_mod_cast hlt
      have hsmallest : (10 : ℚ) ^ (-400 : ℤ) < smallest := by
        rw [smallest, zpow_neg, zpow_neg]
        refine inv_strictAnti₀ (by positivity) ?_
        have hpower : 2 ^ 1074 < 10 ^ 400 := by decide +kernel
        exact_mod_cast hpower
      refine rounds_zero_of_lt (by positivity) ?_
      calc (n.significand : ℚ) * 10 ^ n.exponent
          ≤ 10 ^ (n.whole ++ n.fraction).length * 10 ^ n.exponent := by gcongr
        _ = 10 ^ ((n.whole ++ n.fraction).length + n.exponent) := by
            rw [← zpow_natCast, ← zpow_add₀ (by norm_num)]
        _ ≤ 10 ^ (-400 : ℤ) := zpow_le_zpow_right₀ (by norm_num) hsmall.le
        _ < smallest := hsmallest
  next h =>
  split
  · next hneg =>
    have hrounds := rounds_ofScientific n.significand true n.exponent.natAbs
    rwa [if_pos rfl, Int.ofNat_natAbs_of_nonpos hneg.le, neg_neg] at hrounds
  next hnonneg =>
  split
  · have hrounds := rounds_ofScientific n.significand false n.exponent.natAbs
    rwa [if_neg Bool.false_ne_true, Int.natAbs_of_nonneg (not_lt.1 hnonneg)] at hrounds
  · next hlarge =>
    have hone : (1 : ℚ) ≤ n.significand := by
      exact_mod_cast Nat.one_le_iff_ne_zero.2 fun hzero => h (.inl hzero)
    have hpower : 2 ^ 1024 ≤ 10 ^ 400 := by decide +kernel
    refine rounds_infinity ?_
    calc (2 : ℚ) ^ 1024 ≤ 10 ^ 400 := by exact_mod_cast hpower
      _ = 10 ^ (400 : ℤ) := rfl
      _ ≤ 10 ^ n.exponent := zpow_le_zpow_right₀ (by norm_num) (not_le.1 hlarge).le
      _ ≤ n.significand * 10 ^ n.exponent := le_mul_of_one_le_left (by positivity) hone

/-! ### Digits of a word, scaled -/

/-- A power of ten below a double is rounded to a double from one upwards. -/
theorem powerOfTen_spec {power : Nat} {b : ℚ} (hb : IsDouble b) (h : 10 ^ power ≤ b) :
    (powerOfTen power).isFinite = true ∧ 1 ≤ toRat (powerOfTen power) ∧
      toRat (powerOfTen power) ≤ b := by
  have hrounds := rounds_ofScientific 1 false power
  rw [if_neg Bool.false_ne_true, Nat.cast_one, Rat.one_mul, zpow_natCast] at hrounds
  exact hrounds.between isDouble_one hb (one_le_pow₀ (by norm_num)) h

/-- The powers of ten that are denoted by doubles. -/
theorem powerOfTen_exact {power : Nat} (h : power ≤ 22) :
    (powerOfTen power).isFinite = true ∧ toRat (powerOfTen power) = 10 ^ power := by
  have hrounds := rounds_ofScientific 1 false power
  rw [if_neg Bool.false_ne_true, Nat.cast_one, Rat.one_mul, zpow_natCast] at hrounds
  have hbits : 5 ^ power ≤ 2 ^ 53 := (Nat.pow_le_pow_right (by decide) h).trans (by decide)
  have hdouble := isDouble_natCast_mul hbits (by omega : -1074 ≤ (power : ℤ)) (by omega)
  rw [zpow_natCast, Nat.cast_pow, ← mul_pow] at hdouble
  norm_num at hdouble
  exact hrounds.exact hdouble

/-- Division by a power of ten that is a finite double leaves a double finite. -/
theorem isFinite_div_powerOfTen {v : Float} (hv : v.isFinite = true) {power : Nat}
    (h : power ≤ 308) : (v / powerOfTen power).isFinite = true := by
  have hlargest : IsRounded (2 ^ 53 - 1) 971 :=
    ⟨by norm_num, by norm_num, by norm_num, .inl (by norm_num)⟩
  have hle : (10 : ℚ) ^ power ≤ (2 ^ 53 - 1 : ℕ) * 2 ^ (971 : ℤ) := by
    have hpower : 10 ^ 308 ≤ (2 ^ 53 - 1) * 2 ^ 971 := by decide +kernel
    refine (pow_le_pow_right₀ (by norm_num) h).trans ?_
    exact_mod_cast hpower
  obtain ⟨hfinite, hone, -⟩ := powerOfTen_spec (hlargest.isDouble le_rfl) hle
  have hquotient : |toRat v / toRat (powerOfTen power)| ≤ |toRat v| := by
    rw [abs_div, abs_of_pos (one_pos.trans_le hone)]
    exact div_le_self (abs_nonneg _) hone
  obtain ⟨hlow, hhigh⟩ := abs_le.1 hquotient
  have hdouble : IsDouble |toRat v| := ⟨v.abs, by rwa [isFinite_abs], toRat_abs v⟩
  exact ((rounds_div hv hfinite (by linarith)).between hdouble.neg hdouble hlow hhigh).1

theorem isFinite_shiftDown {v : Float} (hv : v.isFinite = true) (places : Nat) :
    (shiftDown v places).isFinite = true := by
  induction v, places using shiftDown.induct with
  | case1 v places hzero =>
    rw [shiftDown, if_pos hzero]
    exact hv
  | case2 v places hne hle =>
    rw [shiftDown, if_neg hne, if_pos hle]
    exact isFinite_div_powerOfTen hv hle
  | case3 v places hne hgt ih =>
    rw [shiftDown, if_neg hne, if_neg hgt]
    exact ih (isFinite_div_powerOfTen hv le_rfl)

/-- Digits that fit into a word have a finite magnitude, whatever they are, as long as the power of
ten leaves room for a word. -/
theorem isFinite_scaled (h : n.wordParts.2 ≤ 288) : n.scaled.isFinite = true := by
  have hrounds := rounds_ofNat n.wordParts.1
  have hword : (n.wordParts.1 : ℚ) ≤ ((1 : ℕ) : ℚ) * 2 ^ (64 : ℤ) := by
    rw [Nat.cast_one, Rat.one_mul]
    exact_mod_cast n.wordParts_lt.le
  obtain ⟨hfinite, hnonneg, hle⟩ := hrounds.between isDouble_zero
    (isDouble_natCast_mul (by decide) (by decide) (by decide)) (Nat.cast_nonneg _) hword
  have hscaled : n.scaled = if n.wordParts.1 = 0 then 0
      else if n.wordParts.2 < 0 then
        shiftDown (Float.ofNat n.wordParts.1) n.wordParts.2.natAbs
      else if n.wordParts.2 ≤ 308 then
        Float.ofNat n.wordParts.1 * powerOfTen n.wordParts.2.toNat
      else 1 / 0 := rfl
  rw [hscaled]
  split
  · exact isFinite_zero
  split
  · exact isFinite_shiftDown hfinite _
  rw [if_pos (by omega)]
  have hten : (10 : ℚ) ^ n.wordParts.2.toNat ≤ ((1 : ℕ) : ℚ) * 2 ^ (957 : ℤ) := by
    have hpower : 10 ^ 288 ≤ 2 ^ 957 := by decide +kernel
    rw [Nat.cast_one, Rat.one_mul]
    refine (pow_le_pow_right₀ (by norm_num) (by omega : n.wordParts.2.toNat ≤ 288)).trans ?_
    exact_mod_cast hpower
  obtain ⟨hfinite', hone, hle'⟩ := powerOfTen_spec
    (isDouble_natCast_mul (by decide) (by decide) (by decide)) hten
  have hproduct : toRat (Float.ofNat n.wordParts.1) * toRat (powerOfTen n.wordParts.2.toNat) ≤
      ((2 ^ 53 : ℕ) : ℚ) * 2 ^ (970 : ℤ) := by
    refine (mul_le_mul hle hle' (by linarith) (by positivity)).trans ?_
    rw [Nat.cast_one, Rat.one_mul, Rat.one_mul, ← two_zpow_add, Nat.cast_pow, Nat.cast_two,
      ← zpow_natCast, ← two_zpow_add]
    exact zpow_le_zpow_right₀ one_le_two (by decide)
  exact ((rounds_mul hfinite hfinite').between isDouble_zero
    (isDouble_natCast_mul le_rfl (by decide) (by decide)) (mul_nonneg hnonneg (by linarith))
    hproduct).1

/-- If the digits and the power of ten of a numeral are denoted by doubles, its magnitude is the
magnitude that it writes, rounded. -/
theorem rounds_scaled (hsignificand : n.significand < 2 ^ 53) (hexponent : n.exponent.natAbs ≤ 22) :
    Rounds n.scaled (n.significand * 10 ^ n.exponent) := by
  obtain ⟨hfinite, hvalue⟩ := (rounds_ofNat n.significand).exact (isDouble_intCast (by omega))
  have hscaled : n.scaled = if n.significand = 0 then 0
      else if n.exponent < 0 then shiftDown (Float.ofNat n.significand) n.exponent.natAbs
      else if n.exponent ≤ 308 then Float.ofNat n.significand * powerOfTen n.exponent.toNat
      else 1 / 0 := by
    rw [scaled, wordParts_eq (by omega)]
    rfl
  rw [hscaled]
  split
  · next hzero =>
    rw [hzero, Nat.cast_zero, zero_mul]
    exact rounds_zero .positive
  next hne =>
  split
  · next hneg =>
    obtain ⟨hpower, htens⟩ := powerOfTen_exact hexponent
    have hnonzero : ¬ (Float.ofNat n.significand == 0) = true := by
      rw [beq_iff_toRat hfinite isFinite_zero, hvalue, toRat_zero]
      exact_mod_cast hne
    rw [shiftDown, if_neg hnonzero, if_pos (by omega)]
    have hdiv := rounds_div hfinite hpower (by rw [htens]; positivity)
    have hplaces : (n.significand : ℚ) / 10 ^ n.exponent.natAbs =
        n.significand * 10 ^ n.exponent := by
      rw [div_eq_mul_inv, ← zpow_natCast, ← zpow_neg]
      congr 2
      omega
    rwa [hvalue, htens, hplaces] at hdiv
  · next hnonneg =>
    obtain ⟨hpower, htens⟩ := powerOfTen_exact (by omega : n.exponent.toNat ≤ 22)
    rw [if_pos (by omega)]
    have hmul := rounds_mul hfinite hpower
    rw [hvalue, htens, ← zpow_natCast, Int.toNat_of_nonneg (by omega)] at hmul
    exact hmul

/-! ### Numerals of documents -/

/-- A numeral with a finite magnitude has a value, and a rounded magnitude gives a rounded value. -/
theorem exists_toJson {magnitude : Numeral → Float} (hfinite : (magnitude n).isFinite = true)
    (hrounds : Rounds (magnitude n) (n.significand * 10 ^ n.exponent)) :
    ∃ v, n.toJson magnitude = .number v ∧ Rounds v n.value := by
  refine ⟨if n.negative then -magnitude n else magnitude n, by rw [toJson, if_pos hfinite], ?_⟩
  rw [value]
  cases n.negative with
  | true => exact hrounds.neg
  | false => exact hrounds

/-- A numeral that is not beyond the doubles is read as the number that it writes, rounded, by the
reader of nearest doubles. -/
theorem exists_toJson_nearest (hdigits : ∀ digit ∈ n.whole ++ n.fraction, digit < 10)
    (hle : |n.value| ≤ 2 ^ (1023 : ℤ)) : ∃ v, n.toJson nearest = .number v ∧ Rounds v n.value := by
  have hrounds := rounds_nearest hdigits
  have hnonneg : (0 : ℚ) ≤ n.significand * 10 ^ n.exponent :=
    mul_nonneg (Nat.cast_nonneg _) (zpow_nonneg (by decide) _)
  rw [value, abs_signed _ hnonneg] at hle
  have hbound : (2 : ℚ) ^ (1023 : ℤ) = ((2 ^ 53 : ℕ) : ℚ) * 2 ^ (970 : ℤ) := by
    rw [Nat.cast_pow, Nat.cast_two, ← zpow_natCast, ← two_zpow_add]
    rfl
  exact exists_toJson (hrounds.between isDouble_zero
    (isDouble_natCast_mul le_rfl (by decide) (by decide)) hnonneg (hle.trans_eq hbound)).1 hrounds

/-- A numeral whose digits and power of ten are denoted by doubles is read as the number that it
writes, rounded, by the digits of a word as well. -/
theorem exists_toJson_scaled (hsignificand : n.significand < 2 ^ 53)
    (hexponent : n.exponent.natAbs ≤ 22) :
    ∃ v, n.toJson scaled = .number v ∧ Rounds v n.value := by
  have hfinite : n.scaled.isFinite = true := by
    refine isFinite_scaled ?_
    rw [wordParts_eq (by omega)]
    omega
  exact exists_toJson hfinite (rounds_scaled hsignificand hexponent)

/-- A numeral with at most 288 digits before its point, after the exponent has moved it, has a
value by the digits of a word, however many digits follow. -/
theorem exists_toJson_scaled_of_le (h : n.writtenExponent + n.whole.length ≤ 288) :
    ∃ v, n.toJson scaled = .number v := by
  rw [toJson, if_pos (isFinite_scaled (n.wordParts_le.trans h))]
  exact ⟨_, rfl⟩

end Numeral

end LinProg
