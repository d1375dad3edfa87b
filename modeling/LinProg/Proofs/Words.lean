import LinProg.Proofs.Reading

/-!
# Convergents within words

The numerators and denominators of a snap are signed words of 64 bits. A term of the continued
fraction is used only if its products and sums fit in a word; what has to be shown is that none of
them is below zero, so that turning the sign of a numerator cannot leave the words either. The
remainders of the continued fraction of a double are never below zero: not the magnitude, not what
is left of it after rounding down, and not the reciprocal of a fractional part. This holds of every
double, also of those that are infinite or undefined.
-/

namespace LinProg

/-! ### Operations that do not lead below zero -/

namespace Double

open Float.Model Float.Model.UnpackedFloat

variable {u : UnpackedFloat} {v : Float}

/-- Only a negative sign bit makes a double lie below zero. -/
theorem sign_of_isBelowZero {b : BitVec Format.binary64.numBits}
    (h : IsBelowZero (UnpackedFloat.unpack .binary64 b)) :
    Sign.ofBitVec (unpackSign b) = .negative := by
  rw [UnpackedFloat.unpack] at h
  cases hsign : Sign.ofBitVec (unpackSign b) with
  | negative => rfl
  | positive =>
    simp only [hsign] at h
    split at h
    · split at h <;> cases h
    · split at h
      · split at h <;> cases h
      · cases h

theorem sign_pack_finite {m : Nat} {e : Int} {h : 0 < m} :
    Sign.ofBitVec (unpackSign (UnpackedFloat.pack .binary64 (.finite .positive m e h))) =
      .positive := by
  rw [UnpackedFloat.pack]
  dsimp only
  split
  · rfl
  · split <;> exact ofBitVec_unpackSign

/-- Packing leaves what is not below zero where it is. -/
theorem not_packed_lt_zero (h : ¬ IsBelowZero u) : ¬ packed u < 0 := by
  rw [lt_zero_iff]
  intro hbelow
  have hsign := sign_of_isBelowZero (b := UnpackedFloat.pack .binary64 u) hbelow
  cases u with
  | notANumber => cases hsign
  | zero s =>
    rw [unpacked_packed_zero] at hbelow
    cases hbelow
  | infinity s =>
    cases s with
    | negative => exact h trivial
    | positive => cases hsign
  | finite s m e hm =>
    cases s with
    | negative => exact h trivial
    | positive =>
      rw [sign_pack_finite] at hsign
      cases hsign

theorem not_isBelowZero_round (m : Nat) (e : Int) (accuracy : Accuracy) :
    ¬ IsBelowZero (roundWithAccuracy .binary64 .positive m e accuracy) := by
  rw [roundWithAccuracy]
  dsimp only
  split <;> exact id

theorem not_ofNat_lt_zero (n : Nat) : ¬ packed (.ofNat .binary64 n) < 0 := by
  refine not_packed_lt_zero ?_
  rw [UnpackedFloat.ofNat, UnpackedFloat.ofInt, UnpackedFloat.normalize]
  split
  · next h =>
    rw [Int.compare_eq_lt] at h
    omega
  · exact id
  · exact not_isBelowZero_round _ _ _

theorem not_abs_lt_zero (v : Float) : ¬ v.abs < 0 := by
  refine not_packed_lt_zero (u := (unpacked v).abs) ?_
  cases unpacked v <;> exact id

theorem not_floor_lt_zero (h : ¬ v < 0) : ¬ floor v < 0 := by
  unfold floor
  split
  · exact h
  · split
    · exact not_ofNat_lt_zero _
    · exact h

theorem truncate_nonneg (h : ¬ v < 0) : 0 ≤ truncate v := by
  rw [truncate, if_neg h]
  exact le_min (Int.natCast_nonneg _) (by decide)

/-- The integer part of a double is held within the words. -/
theorem fitsWord_truncate (v : Float) : fitsWord (truncate v) = true := by
  have hpow : Int.pow 2 63 = 9223372036854775808 := rfl
  rw [fitsWord_iff, truncate, hpow]
  split <;> omega

/-- The reciprocal of a fractional part that is not taken for zero is not below zero. -/
theorem not_one_div_lt_zero (h : ¬ v < Snap.resolution) : ¬ 1 / v < 0 := by
  have hzero : ¬ (v == 0) = true := by
    intro hzero
    rcases eq_of_beq_zero hzero with rfl | rfl <;> exact h (by decide +kernel)
  have hbelow : ¬ v < 0 :=
    fun hbelow => h (lt_of_lt_zero hbelow (by decide +kernel) (by rintro ⟨⟩))
  rw [beq_zero_iff] at hzero
  rw [lt_zero_iff] at hbelow
  rw [div_eq, show unpacked 1 = .finite .positive (2 ^ 52) (-52) (by decide) from rfl]
  refine not_packed_lt_zero ?_
  generalize unpacked v = u at hzero hbelow ⊢
  rcases u with (_ | _) | _ | s | ⟨_ | _, m, e, hm⟩
  · exact absurd trivial hbelow
  · exact id
  · exact id
  · exact absurd ⟨s, rfl⟩ hzero
  · exact absurd trivial hbelow
  · exact not_isBelowZero_round _ _ _

end Double

/-! ### Convergents -/

/-- The integer is held by a signed word of 64 bits and is not below zero. -/
def IsUnsignedWord (n : Int) : Prop := 0 ≤ n ∧ fitsWord n = true

/-- Numerators and denominators fit in words and are not below zero. -/
structure Convergents.InWords (c : Convergents) : Prop where
  previousNumerator : IsUnsignedWord c.previousNumerator
  numerator : IsUnsignedWord c.numerator
  previousDenominator : IsUnsignedWord c.previousDenominator
  denominator : IsUnsignedWord c.denominator

/-- The words reach further below zero than above, so the sign of such an integer can be turned. -/
theorem IsUnsignedWord.fitsWord_neg {n : Int} (h : IsUnsignedWord n) : fitsWord (-n) = true := by
  obtain ⟨hnonneg, hfits⟩ := h
  rw [fitsWord_iff] at hfits ⊢
  omega

namespace Convergents

variable {c : Convergents}

theorem inWords_seed : seed.InWords where
  previousNumerator := ⟨le_refl _, by decide⟩
  numerator := ⟨by decide, by decide⟩
  previousDenominator := ⟨by decide, by decide⟩
  denominator := ⟨le_refl _, by decide⟩

/-- A term that is admitted keeps the convergents within words. -/
theorem InWords.next (hc : c.InWords) {term : Int} (hterm : 0 ≤ term)
    (hadmits : Snap.admits c term = true) : (c.next term).InWords := by
  simp only [Snap.admits, Bool.and_eq_true] at hadmits
  obtain ⟨⟨⟨⟨-, hnumerator⟩, -⟩, hdenominator⟩, -⟩ := hadmits
  refine ⟨hc.numerator, ⟨?_, hnumerator⟩, hc.denominator, ⟨?_, hdenominator⟩⟩
  · exact add_nonneg (mul_nonneg hterm hc.numerator.1) hc.previousNumerator.1
  · exact add_nonneg (mul_nonneg hterm hc.denominator.1) hc.previousDenominator.1

/-- The continued fraction of a remainder that is not below zero stays within words. -/
theorem InWords.refine {remainder : Float} (hc : c.InWords) (h : ¬ remainder < 0) (terms : Nat) :
    (Snap.refine terms remainder c).InWords := by
  induction terms generalizing remainder c with
  | zero => exact hc
  | succ terms ih =>
    rw [Snap.refine]
    dsimp only
    split
    · next hadmits =>
      have hnext := hc.next (Double.truncate_nonneg (Double.not_floor_lt_zero h)) hadmits
      split
      · exact hnext
      · next hfraction => exact ih hnext (Double.not_one_div_lt_zero hfraction)
    · exact hc

end Convergents

namespace Snap

/-- After any number of terms the convergents of the magnitude of a double are within words. -/
theorem inWords_refine (value : Float) (terms : Nat) :
    (refine terms (Arithmetic.abs value) .seed).InWords :=
  Convergents.inWords_seed.refine (Double.not_abs_lt_zero value) terms

/-- Numerator and denominator of the approximating fraction of a double fit in words. -/
theorem fitsWord_approximate (value : Float) :
    fitsWord (approximate value).1 = true ∧ fitsWord (approximate value).2 = true := by
  obtain ⟨-, hnumerator, -, hdenominator⟩ := inWords_refine value maxTerms
  unfold approximate
  dsimp only
  split
  · exact ⟨Double.fitsWord_truncate value, (by decide : fitsWord 1 = true)⟩
  · refine ⟨?_, hdenominator.2⟩
    dsimp only
    split
    · exact hnumerator.fitsWord_neg
    · exact hnumerator.2

end Snap

end LinProg
