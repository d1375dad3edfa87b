import LinProg.Proofs.Order

/-!
# Rounding to doubles

A result that is rounded never passes a double: it is at most every double that the exact number is
at most, and at least every double that the exact number is at least. So a number that is a double
is rounded to itself, a number between two doubles stays between them, and only a number beyond all
doubles becomes infinite. Rounding has this property because a significand is cut off where the bits
of a double end: each double is a whole multiple of the last bit that is kept, or is smaller than
what is kept, and what is kept is the whole number below or above the exact one. For the same reason
a finite result is off by one unit in its last place at most.
-/

namespace LinProg

namespace Double

open Float.Model Float.Model.UnpackedFloat

variable {v : Float} {x y : ℚ}

/-! ### Results that are rounded -/

/-- The least double above zero. -/
def smallest : ℚ := 2 ^ (-1074 : ℤ)

theorem smallest_pos : 0 < smallest := two_zpow_pos _

/-- The double is the number rounded: it is at most each double that the number is at most, and at
least each double that the number is at least. If it is finite, it differs from the number by no
more than one unit in the last place. -/
structure Rounds (v : Float) (x : ℚ) : Prop where
  le : ∀ d : Float, d.isFinite = true → x ≤ toRat d → v ≤ d
  ge : ∀ d : Float, d.isFinite = true → toRat d ≤ x → d ≤ v
  near : v.isFinite = true → |toRat v - x| ≤ |x| / 2 ^ 52 + smallest

namespace Rounds

theorem le_toRat (h : Rounds v x) (hv : v.isFinite = true) {a : ℚ} (ha : IsDouble a)
    (hax : a ≤ x) : a ≤ toRat v := by
  obtain ⟨d, hd, rfl⟩ := ha
  exact (le_iff_toRat hd hv).1 (h.ge d hd hax)

theorem toRat_le (h : Rounds v x) (hv : v.isFinite = true) {b : ℚ} (hb : IsDouble b)
    (hxb : x ≤ b) : toRat v ≤ b := by
  obtain ⟨d, hd, rfl⟩ := hb
  exact (le_iff_toRat hv hd).1 (h.le d hd hxb)

/-- A number that is rounded to less than a double in magnitude is at most that double. -/
theorem abs_le_of_lt (h : Rounds v x) (hv : v.isFinite = true) {a : ℚ} (ha : IsDouble a)
    (hlt : |toRat v| < a) : |x| ≤ a := by
  obtain ⟨hlow, hhigh⟩ := abs_lt.1 hlt
  refine abs_le.2 ⟨le_of_not_gt fun hx => ?_, le_of_not_gt fun hx => ?_⟩
  · exact absurd (h.toRat_le hv ha.neg hx.le) (not_le.2 hlow)
  · exact absurd (h.le_toRat hv ha hx.le) (not_le.2 hhigh)

/-- A number between two doubles is rounded to a double between them. -/
theorem between (h : Rounds v x) {a b : ℚ} (ha : IsDouble a) (hb : IsDouble b) (hax : a ≤ x)
    (hxb : x ≤ b) : v.isFinite = true ∧ a ≤ toRat v ∧ toRat v ≤ b := by
  obtain ⟨c, hc, rfl⟩ := id ha
  obtain ⟨d, hd, rfl⟩ := id hb
  have hv := isFinite_of_le_of_le hc hd (h.ge c hc hax) (h.le d hd hxb)
  exact ⟨hv, h.le_toRat hv ha hax, h.toRat_le hv hb hxb⟩

/-- A number that is a double is rounded to itself. -/
theorem exact (h : Rounds v x) (hx : IsDouble x) : v.isFinite = true ∧ toRat v = x := by
  obtain ⟨hv, hge, hle⟩ := h.between hx hx le_rfl le_rfl
  exact ⟨hv, le_antisymm hle hge⟩

theorem toRat_le_add (h : Rounds v x) (hv : v.isFinite = true) :
    toRat v ≤ x + |x| / 2 ^ 52 + smallest := by
  linarith [(abs_le.1 (h.near hv)).2]

theorem sub_le_toRat (h : Rounds v x) (hv : v.isFinite = true) :
    x - |x| / 2 ^ 52 - smallest ≤ toRat v := by
  linarith [(abs_le.1 (h.near hv)).1]

theorem abs_toRat_le (h : Rounds v x) (hv : v.isFinite = true) :
    |toRat v| ≤ |x| + |x| / 2 ^ 52 + smallest := by
  linarith [h.near hv, abs_sub_abs_le_abs_sub (toRat v) x]

/-- A number from zero upwards that is not rounded to a finite double lies above each finite
double. -/
theorem toRat_lt (h : Rounds v x) (hx : 0 ≤ x) (hv : v.isFinite = false) {d : Float}
    (hd : d.isFinite = true) : toRat d < x := by
  by_contra hle
  rw [isFinite_of_le_of_le isFinite_zero hd (h.ge 0 isFinite_zero (by rwa [toRat_zero]))
    (h.le d hd (not_lt.1 hle))] at hv
  cases hv

theorem neg (h : Rounds v x) : Rounds (-v) (-x) where
  le d hd hx := by
    rw [← neg_neg_eq d, neg_le_neg_iff_le]
    exact h.ge (-d) (isFinite_neg hd) (by rw [toRat_neg]; linarith)
  ge d hd hx := by
    rw [← neg_neg_eq d, neg_le_neg_iff_le]
    exact h.le (-d) (isFinite_neg hd) (by rw [toRat_neg]; linarith)
  near hv := by
    have hnear := h.near (neg_neg_eq v ▸ isFinite_neg hv)
    rwa [toRat_neg, neg_sub_neg, abs_sub_comm, abs_neg]

end Rounds

/-- The second number lies on the same side of each double as the first one, and no further from it
than one unit in the last place of a double. -/
structure Follows (x y : ℚ) : Prop where
  le : ∀ d : Float, d.isFinite = true → x ≤ toRat d → y ≤ toRat d
  ge : ∀ d : Float, d.isFinite = true → toRat d ≤ x → toRat d ≤ y
  near : |y - x| ≤ |x| / 2 ^ 52 + smallest

namespace Follows

theorem refl (x : ℚ) : Follows x x := by
  refine ⟨fun _ _ h => h, fun _ _ h => h, ?_⟩
  rw [sub_self, abs_zero]
  exact add_nonneg (by positivity) smallest_pos.le

theorem neg (h : Follows x y) : Follows (-x) (-y) where
  le d hd hx := by
    have := h.ge (-d) (isFinite_neg hd) (by rw [toRat_neg]; linarith)
    rw [toRat_neg] at this
    linarith
  ge d hd hx := by
    have := h.le (-d) (isFinite_neg hd) (by rw [toRat_neg]; linarith)
    rw [toRat_neg] at this
    linarith
  near := by
    rw [neg_sub_neg, abs_sub_comm, abs_neg]
    exact h.near

theorem signed (h : Follows x y) (s : Sign) : Follows (signed s x) (signed s y) := by
  cases s with
  | negative => exact h.neg
  | positive => exact h

/-- A double that follows a number is that number rounded. -/
theorem rounds (h : Follows x (toRat v)) (hv : v.isFinite = true) : Rounds v x where
  le d hd hx := (le_iff_toRat hv hd).2 (h.le d hd hx)
  ge d hd hx := (le_iff_toRat hd hv).2 (h.ge d hd hx)
  near _ := h.near

theorem rounds_zero {s : Sign} (h : Follows x 0) : Rounds (packed (.zero s)) x := by
  have hu := unpacked_packed_zero s
  refine rounds ?_ (by rw [isFinite_eq, hu]; rfl)
  rwa [toRat_of_unpacked hu]

/-- A magnitude that follows a number is packed to that number rounded, even if it becomes
infinite. -/
theorem rounds_packed {s : Sign} {m : ℕ} {e : ℤ} {hpos : 0 < m}
    (h : Follows x (Double.signed s (m * 2 ^ e))) (hm : IsRounded m e) :
    Rounds (packed (.finite s m e hpos)) x := by
  by_cases he : e ≤ 971
  · refine rounds ?_ (hm.isFinite_packed he)
    rwa [hm.toRat_packed he]
  · have hu := unpacked_packed_infinity (s := s) (m := m) (h := hpos) (not_le.1 he)
    have hinfinite : (packed (.finite s m e hpos)).isFinite ≠ true := by
      rw [isFinite_eq, hu]
      nofun
    cases s with
    | negative =>
      refine ⟨fun d hd _ => infinity_le hd hu, fun d hd hle => ?_, fun hv => absurd hv hinfinite⟩
      have habs := hm.abs_toRat_lt (not_le.1 he) hd
      exact absurd (h.ge d hd hle) (not_le.2 (abs_lt.1 habs).1)
    | positive =>
      refine ⟨fun d hd hle => ?_, fun d hd _ => le_of_infinity hd hu, fun hv => absurd hv hinfinite⟩
      have habs := hm.abs_toRat_lt (not_le.1 he) hd
      exact absurd (h.le d hd hle) (not_le.2 (abs_lt.1 habs).2)

end Follows

theorem rounds_toRat (hv : v.isFinite = true) : Rounds v (toRat v) := (Follows.refl _).rounds hv

theorem rounds_zero (s : Sign) : Rounds (packed (.zero s)) 0 := (Follows.refl 0).rounds_zero

/-! ### Significands with residual bits -/

/-- A significand with its residual bits is a number rounded down, and the bits are clear only if
nothing was lost. -/
structure Represents (em : ExtendedMantissa) (x : ℚ) : Prop where
  le : (em.mantissa : ℚ) ≤ x
  lt : x < em.mantissa + 1
  clear : em.roundBit = false ∧ em.stickyBit = false ↔ x = em.mantissa

namespace Represents

variable {em : ExtendedMantissa}

theorem shiftRightOne (h : Represents em x) : Represents em.shiftRightOne (x / 2) := by
  have hdiv : (em.mantissa : ℚ) = 2 * (em.mantissa / 2 : ℕ) + (em.mantissa % 2 : ℕ) := by
    exact_mod_cast (Nat.div_add_mod em.mantissa 2).symm
  have hmod : ((em.mantissa % 2 : ℕ) : ℚ) ≤ 1 := by
    exact_mod_cast Nat.lt_succ_iff.1 (Nat.mod_lt _ two_pos)
  have hnonneg : (0 : ℚ) ≤ (em.mantissa % 2 : ℕ) := Nat.cast_nonneg _
  have hle := h.le
  have hlt := h.lt
  refine ⟨?_, ?_, ?_⟩
  · change ((em.mantissa / 2 : ℕ) : ℚ) ≤ _
    linarith
  · change _ < ((em.mantissa / 2 : ℕ) : ℚ) + 1
    linarith
  · change (em.mantissa % 2 != 0) = false ∧ (em.roundBit || em.stickyBit) = false ↔
      x / 2 = ((em.mantissa / 2 : ℕ) : ℚ)
    rw [bne_eq_false_iff_eq, Bool.or_eq_false_iff, h.clear]
    constructor
    · rintro ⟨heven, hx⟩
      rw [heven, Nat.cast_zero] at hdiv
      linarith
    · intro hx
      have heven : ((em.mantissa % 2 : ℕ) : ℚ) = 0 := by linarith
      exact ⟨by exact_mod_cast heven, by linarith⟩

theorem shiftRight (h : Represents em x) (k : ℕ) : Represents (em >>> k) (x / 2 ^ k) := by
  change Represents (k.repeat ExtendedMantissa.shiftRightOne em) _
  induction k with
  | zero => simpa [Nat.repeat] using h
  | succ k ih =>
    rw [Nat.repeat, pow_succ, ← div_div]
    exact ih.shiftRightOne

theorem exactly (m : ℕ) : Represents (.ofMantissaAndAccuracy m .exact) m :=
  ⟨le_rfl, lt_add_one _, iff_of_true ⟨rfl, rfl⟩ rfl⟩

theorem inexactly {m : ℕ} (o : Ordering) (hlt : (m : ℚ) < x) (hlt' : x < m + 1) :
    Represents (.ofMantissaAndAccuracy m (.inexact o)) x := by
  have hmantissa : (ExtendedMantissa.ofMantissaAndAccuracy m (.inexact o)).mantissa = m := by
    cases o <;> rfl
  refine ⟨by rw [hmantissa]; exact hlt.le, by rwa [hmantissa], iff_of_false ?_ ?_⟩
  · cases o <;> rintro ⟨⟨⟩, ⟨⟩⟩
  · rw [hmantissa]
    exact hlt.ne'

/-- A quotient is represented by its whole part and the accuracy that the remainder tells. -/
theorem quotient (n : ℕ) {k : ℕ} (hk : 0 < k) :
    Represents (.ofMantissaAndAccuracy (n / k) (accuracyOfFraction (n % k) k)) (n / k : ℚ) := by
  have hkq : (0 : ℚ) < k := by exact_mod_cast hk
  have hn : (n : ℚ) = (n / k : ℕ) * k + (n % k : ℕ) := by
    exact_mod_cast (Nat.div_add_mod' n k).symm
  have hmod : ((n % k : ℕ) : ℚ) < k := by exact_mod_cast Nat.mod_lt n hk
  by_cases hrest : n % k = 0
  · have hdiv : (n / k : ℚ) = (n / k : ℕ) := by
      rw [hrest, Nat.cast_zero, add_zero] at hn
      rw [div_eq_iff hkq.ne']
      exact hn
    rw [hdiv, accuracyOfFraction, if_pos hrest]
    exact exactly _
  · have hpos : (0 : ℚ) < (n % k : ℕ) := by exact_mod_cast Nat.pos_of_ne_zero hrest
    rw [accuracyOfFraction, if_neg hrest]
    refine inexactly _ ?_ ?_
    · rw [lt_div_iff₀ hkq]
      linarith
    · rw [div_lt_iff₀ hkq]
      linarith

theorem roundedMantissa_cases (h : Represents em x) : em.roundedMantissa = em.mantissa ∨
    em.mantissa < x ∧ em.roundedMantissa = em.mantissa + 1 := by
  have hle := h.le
  have hclear := h.clear
  rcases em with ⟨m, _ | _, _ | _⟩
  · exact .inl rfl
  · exact .inl rfl
  · have hlt : (m : ℚ) < x := lt_of_le_of_ne hle fun heq => by simp [heq] at hclear
    change m + m % 2 = m ∨ _ ∧ m + m % 2 = m + 1
    rcases Nat.mod_two_eq_zero_or_one m with hm | hm
    · exact .inl (by rw [hm, Nat.add_zero])
    · exact .inr ⟨hlt, by rw [hm]⟩
  · have hlt : (m : ℚ) < x := lt_of_le_of_ne hle fun heq => by simp [heq] at hclear
    exact .inr ⟨hlt, rfl⟩

theorem roundedMantissa_le (h : Represents em x) {n : ℕ} (hn : x ≤ n) :
    em.roundedMantissa ≤ n := by
  rcases h.roundedMantissa_cases with hr | ⟨hlt, hr⟩
  · rw [hr]
    exact_mod_cast h.le.trans hn
  · rw [hr]
    exact_mod_cast hlt.trans_le hn

theorem le_roundedMantissa (h : Represents em x) {n : ℕ} (hn : n ≤ x) :
    n ≤ em.roundedMantissa := by
  have hfloor : n ≤ em.mantissa := Nat.lt_succ_iff.1 (by exact_mod_cast hn.trans_lt h.lt)
  rcases h.roundedMantissa_cases with hr | ⟨-, hr⟩
  · rwa [hr]
  · rw [hr]
    exact hfloor.trans (Nat.le_succ _)

end Represents

/-! ### Rounding a magnitude -/

/-- Each double is a whole multiple of a given power of two, or small beside it. -/
theorem toRat_eq_or_lt (hv : v.isFinite = true) (t : ℤ) :
    (∃ n : ℤ, toRat v = n * 2 ^ t) ∨ t ≠ -1074 ∧ |toRat v| < 2 ^ 52 * 2 ^ t := by
  rcases unpacked_cases hv with ⟨s, hu⟩ | ⟨s, m, e, h, hu, hm, -⟩
  · exact .inl ⟨0, by rw [toRat_of_unpacked hu, value_zero, Int.cast_zero, zero_mul]⟩
  · rw [toRat_of_unpacked hu, value_finite]
    rcases le_or_gt t e with hle | hlt
    · refine .inl ⟨s.apply m * 2 ^ (e - t).toNat, ?_⟩
      rw [Int.cast_mul, cast_apply, two_zpow_eq_mul hle, signed_mul, signed_mul]
      push_cast
      rw [mul_assoc]
    · have hle := hm.le
      refine .inr ⟨by omega, ?_⟩
      rw [abs_signed _ (magnitude_pos h e).le]
      exact hm.lt_two_zpow hlt

/-- A significand that is rounded where the bits of a double end is off by one unit there at
most. -/
theorem Represents.abs_scaled_sub_le {em : ExtendedMantissa} {t : ℤ} (h : Represents em x)
    (hfull : 2 ^ 52 ≤ x ∨ t = -1074) :
    |(em.roundedMantissa : ℚ) * 2 ^ t - x * 2 ^ t| ≤ |x * 2 ^ t| / 2 ^ 52 + smallest := by
  have hpos := two_zpow_pos t
  have hnonneg : 0 ≤ x := (Nat.cast_nonneg _).trans h.le
  have hone : |(em.roundedMantissa : ℚ) - x| ≤ 1 := by
    have hle := h.le
    have hlt := h.lt
    rcases h.roundedMantissa_cases with hr | ⟨hbelow, hr⟩ <;> rw [hr, abs_le]
    · exact ⟨by linarith, by linarith⟩
    · rw [Nat.cast_add, Nat.cast_one]
      exact ⟨by linarith, by linarith⟩
  rw [← sub_mul, abs_mul, abs_of_pos hpos, abs_of_nonneg (mul_nonneg hnonneg hpos.le)]
  calc |(em.roundedMantissa : ℚ) - x| * 2 ^ t ≤ 1 * 2 ^ t :=
        mul_le_mul_of_nonneg_right hone hpos.le
    _ ≤ x * 2 ^ t / 2 ^ 52 + smallest := ?_
  rcases hfull with hlarge | rfl
  · have hunit := mul_le_mul_of_nonneg_right hlarge hpos.le
    rw [← div_le_div_iff_of_pos_right (c := 2 ^ 52) (by positivity),
      mul_div_cancel_left₀ _ (by positivity)] at hunit
    linarith [smallest_pos]
  · have hrest : 0 ≤ x * 2 ^ (-1074 : ℤ) / 2 ^ 52 := by positivity
    rw [Rat.one_mul]
    exact le_add_of_nonneg_left hrest

/-- A significand that is rounded where the bits of a double end follows the exact one. -/
theorem Represents.follows {em : ExtendedMantissa} {t : ℤ} (h : Represents em x)
    (hfull : 2 ^ 52 ≤ x ∨ t = -1074) : Follows (x * 2 ^ t) (em.roundedMantissa * 2 ^ t) := by
  have hpos := two_zpow_pos t
  have hnonneg : 0 ≤ x := (Nat.cast_nonneg _).trans h.le
  refine ⟨?_, ?_, h.abs_scaled_sub_le hfull⟩
  · intro d hd hle
    rcases toRat_eq_or_lt hd t with ⟨n, hn⟩ | ⟨hne, hlt⟩
    · rw [hn] at hle ⊢
      have hxn := le_of_mul_le_mul_right hle hpos
      obtain ⟨k, rfl⟩ := Int.eq_ofNat_of_zero_le (by exact_mod_cast hnonneg.trans hxn : 0 ≤ n)
      exact mul_le_mul_of_nonneg_right (by exact_mod_cast h.roundedMantissa_le hxn) hpos.le
    · have hx := mul_le_mul_of_nonneg_right (hfull.resolve_right hne) hpos.le
      linarith [le_abs_self (toRat d)]
  · intro d hd hle
    rcases toRat_eq_or_lt hd t with ⟨n, hn⟩ | ⟨hne, hlt⟩
    · rw [hn] at hle ⊢
      refine mul_le_mul_of_nonneg_right ?_ hpos.le
      have hnx := le_of_mul_le_mul_right hle hpos
      rcases le_or_gt 0 n with hn0 | hn0
      · obtain ⟨k, rfl⟩ := Int.eq_ofNat_of_zero_le hn0
        exact_mod_cast h.le_roundedMantissa hnx
      · exact (by exact_mod_cast hn0.le : (n : ℚ) ≤ 0).trans (Nat.cast_nonneg _)
    · have hrounded : 2 ^ 52 ≤ em.roundedMantissa :=
        h.le_roundedMantissa (by exact_mod_cast hfull.resolve_right hne)
      have hx : (2 : ℚ) ^ 52 * 2 ^ t ≤ em.roundedMantissa * 2 ^ t :=
        mul_le_mul_of_nonneg_right (by exact_mod_cast hrounded) hpos.le
      linarith [le_abs_self (toRat d)]

/-- A significand that rounding has carried to one bit more is shifted once more. -/
theorem shiftToTargetExponent_cases {r : ℕ} {t : ℤ} (hr : r ≤ 2 ^ 53) (ht : -1074 ≤ t)
    (hfull : 2 ^ 52 ≤ r ∨ t = -1074) :
    ∃ m e, shiftToTargetExponent .binary64 r t .exact = (⟨m, false, false⟩, e) ∧
      (m : ℚ) * 2 ^ e = r * 2 ^ t ∧ (0 < m → IsRounded m e) := by
  rcases Nat.eq_zero_or_pos r with rfl | hpos
  · have hzero := shiftRight_exact 0
      (Format.binary64.targetExponent (totalExponent 0 t) - t).toNat
    rw [Nat.zero_mul] at hzero
    exact ⟨0, _, Prod.ext hzero rfl, by simp, fun h => absurd h (lt_irrefl 0)⟩
  · rcases hr.lt_or_eq with hlt | rfl
    · have hm : IsRounded r t := ⟨hpos, hlt, ht, hfull⟩
      refine ⟨r, t, ?_, rfl, fun _ => hm⟩
      simpa using shiftToTargetExponent_exact hm.pos hm.targetExponent_eq 0
    · have hm : IsRounded (2 ^ 52) (t + 1) :=
        ⟨by positivity, by norm_num, by omega, .inl le_rfl⟩
      refine ⟨2 ^ 52, t + 1, ?_, ?_, fun _ => hm⟩
      · simpa using shiftToTargetExponent_exact hm.pos hm.targetExponent_eq 1
      · rw [two_zpow_add]
        push_cast
        ring

/-- The bits that are kept of a significand are as many as a double has. -/
theorem kept_bits {m k : ℕ} {e t : ℤ} (hle : (m : ℚ) ≤ x) (hlt : x < m + 1) (hk : e + k = t)
    (ht : Format.binary64.targetExponent (totalExponent m e) = t) :
    (2 ^ 52 ≤ x / 2 ^ k ∨ t = -1074) ∧ x / 2 ^ k ≤ (2 ^ 53 : ℕ) := by
  have hpow : (0 : ℚ) < 2 ^ k := by positivity
  rw [targetExponent_eq] at ht
  constructor
  · refine or_iff_not_imp_right.2 fun hne => ?_
    have hm : m ≠ 0 := by
      rintro rfl
      rw [Nat.log2_zero] at ht
      omega
    have hlog : m.log2 = 52 + k := by omega
    rw [le_div_iff₀ hpow, ← pow_add, ← hlog]
    exact le_trans (by exact_mod_cast Nat.log2_self_le hm) hle
  · have hlog : m + 1 ≤ 2 ^ (53 + k) :=
      Nat.lt_log2_self.trans_le (Nat.pow_le_pow_right two_pos (by omega))
    rw [div_le_iff₀ hpow, Nat.cast_pow, Nat.cast_two, ← pow_add]
    exact hlt.le.trans (by exact_mod_cast hlog)

/-- A magnitude that is given rounded down, with its accuracy, is rounded to a double if it is given
with enough bits. -/
theorem rounds_roundWithAccuracy (s : Sign) {m : ℕ} {e : ℤ} {a : Accuracy}
    (h : Represents (.ofMantissaAndAccuracy m a) x)
    (hfit : e ≤ Format.binary64.targetExponent (totalExponent m e)) :
    Rounds (packed (roundWithAccuracy .binary64 s m e a)) (signed s (x * 2 ^ e)) := by
  obtain ⟨t, ht⟩ : ∃ t, Format.binary64.targetExponent (totalExponent m e) = t := ⟨_, rfl⟩
  obtain ⟨k, hk⟩ := Int.le.dest (hfit.trans_eq ht)
  obtain ⟨em, hem⟩ : ∃ em, ExtendedMantissa.ofMantissaAndAccuracy m a >>> k = em := ⟨_, rfl⟩
  have hrepresents : Represents em (x / 2 ^ k) := hem ▸ h.shiftRight k
  have hshift : shiftToTargetExponent .binary64 m e a = (em, t) := by
    rw [shiftToTargetExponent, ht, shiftToExponent, ← hk, add_sub_cancel_left, Int.toNat_natCast,
      hem]
  have hscale : x / 2 ^ k * 2 ^ t = x * 2 ^ e := by
    rw [← hk, add_comm, two_zpow_add, zpow_natCast, ← mul_assoc, div_mul_cancel₀ _ (by positivity)]
  have hmantissa : (ExtendedMantissa.ofMantissaAndAccuracy m a).mantissa = m := by
    rcases a with _ | (_ | _ | _) <;> rfl
  obtain ⟨hfull, hbits⟩ := kept_bits (hmantissa ▸ h.le) (hmantissa ▸ h.lt) hk ht
  obtain ⟨m', e', hlast, hvalue, hrounded⟩ := shiftToTargetExponent_cases
    (hrepresents.roundedMantissa_le hbits) (by rw [targetExponent_eq] at ht; omega)
    (hfull.imp_left fun h => hrepresents.le_roundedMantissa (by exact_mod_cast h))
  have hfollows := (hrepresents.follows hfull).signed s
  rw [hscale, ← hvalue] at hfollows
  rw [roundWithAccuracy]
  simp only [hshift, hlast]
  split
  · next hzero =>
    rw [hzero, Nat.cast_zero, zero_mul, signed_zero] at hfollows
    exact hfollows.rounds_zero
  · next hpos => exact hfollows.rounds_packed (hrounded (Nat.pos_of_ne_zero hpos))

theorem rounds_round (s : Sign) {m : ℕ} (hm : m ≠ 0) (e : ℤ) :
    Rounds (packed (UnpackedFloat.round .binary64 s m e)) (signed s (m * 2 ^ e)) := by
  obtain ⟨t, ht⟩ : ∃ t, Format.binary64.targetExponent (totalExponent m e) = t := ⟨_, rfl⟩
  obtain ⟨k, hk⟩ : ∃ k, (e - t).toNat = k := ⟨_, rfl⟩
  have hfit : e - k ≤ Format.binary64.targetExponent (totalExponent (m * 2 ^ k) (e - k)) := by
    rw [targetExponent_eq] at ht ⊢
    rw [log2_mul_two_pow hm]
    omega
  have hrounds := rounds_roundWithAccuracy s (.exactly (m * 2 ^ k)) hfit
  rw [Nat.cast_mul, Nat.cast_pow, Nat.cast_two, mul_two_pow_scale] at hrounds
  rw [UnpackedFloat.round, ht, decreaseExponent]
  simpa only [hk, Nat.shiftLeft_eq] using hrounds

/-- A whole multiple of a power of two is rounded to a double. -/
theorem rounds_normalize (n : ℤ) (e : ℤ) (s : Sign) :
    Rounds (packed (UnpackedFloat.normalize .binary64 n e s)) (n * 2 ^ e) := by
  rw [UnpackedFloat.normalize]
  rcases lt_trichotomy n 0 with hn | rfl | hn
  · have hcast : (((-n).toNat : ℕ) : ℚ) = -n := by
      exact_mod_cast Int.toNat_of_nonneg (by omega : 0 ≤ -n)
    have hrounds := rounds_round .negative (m := (-n).toNat) (by omega) e
    rw [hcast, signed, neg_mul, neg_neg] at hrounds
    rw [Int.compare_eq_lt.2 hn]
    exact hrounds
  · rw [Int.cast_zero, zero_mul]
    exact rounds_zero s
  · have hcast : ((n.toNat : ℕ) : ℚ) = n := by exact_mod_cast Int.toNat_of_nonneg hn.le
    have hrounds := rounds_round .positive (m := n.toNat) (by omega) e
    rw [hcast, signed] at hrounds
    rw [Int.compare_eq_gt.2 hn]
    exact hrounds

end Double

end LinProg
