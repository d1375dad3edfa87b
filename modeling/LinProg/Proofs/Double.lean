import Mathlib
import LinProg.Proofs.Units
import LinProg.Arithmetic.Double

/-!
# Zeros and ones among the doubles

Every operation on doubles is the rounded operation on signs, significands and exponents. A finite
double that is taken apart has the exponent that rounding would choose for it, and is put together
again without a change; so an operation whose exact result is one of its operands gives that
operand, and the laws of zeros and ones hold. The two zeros differ, and the equality test does not
tell them apart.
-/

namespace LinProg

/-- A value is snapped to another one only within the tolerance. -/
theorem Snap.snap_eq_or_near {α : Type} [Arithmetic α] (value : α) :
    snap value = value ∨ Arithmetic.abs (value - snap value) ≤ tolerance value := by
  unfold snap
  split
  · exact .inl rfl
  · dsimp only
    split
    · next hnear => exact .inr hnear
    · exact .inl rfl

namespace Double

open Float.Model Float.Model.UnpackedFloat

/-! ### The significand and the exponent of what has been unpacked -/

section

variable {b : BitVec Format.binary64.numBits} {s : Sign} {m : Nat} {e : Int} {h : 0 < m}

theorem toNat_one_append (m : BitVec 52) : (1#1 ++ m).toNat = 2 ^ 52 + m.toNat := by
  rw [BitVec.toNat_append, ← Nat.shiftLeft_add_eq_or_of_lt m.isLt]
  rfl

theorem log2_eq {m : Nat} (h : 2 ^ 52 ≤ m) (h' : m < 2 ^ 53) : m.log2 = 52 :=
  (Nat.log2_eq_iff (by omega)).2 ⟨h, h'⟩

theorem log2_lt {m : Nat} (h : 0 < m) (h' : m < 2 ^ 52) : m.log2 < 52 :=
  (Nat.log2_lt h.ne').2 h'

theorem log2_mul_two_pow {m : Nat} (h : m ≠ 0) (k : Nat) : (m * 2 ^ k).log2 = m.log2 + k := by
  refine (Nat.log2_eq_iff (by positivity)).2 ?_
  obtain ⟨hlo, hhi⟩ := (Nat.log2_eq_iff h).1 rfl
  rw [Nat.add_right_comm, Nat.pow_add, Nat.pow_add]
  exact ⟨Nat.mul_le_mul_right _ hlo, Nat.mul_lt_mul_of_pos_right hhi (by positivity)⟩

/-- The significand and the exponent of a finite double, from its bits. -/
theorem unpack_eq_finite (hb : UnpackedFloat.unpack .binary64 b = .finite s m e h) :
    (unpackExponent b = 0#_ ∧ m = (unpackMantissa b).toNat ∧ e = -1074) ∨
      (0 < (unpackExponent b).toNat ∧ (unpackExponent b).toNat < 2047 ∧
        m = 2 ^ 52 + (unpackMantissa b).toNat ∧ e = (unpackExponent b).toNat - 1075) := by
  have hbias : ((Format.binary64.exponentBias : Nat) : Int) = 1023 := rfl
  have hwidth : ((Format.binary64.mantissaBitsWithoutImplicit : Nat) : Int) = 52 := rfl
  rw [UnpackedFloat.unpack] at hb
  split at hb
  · split at hb <;> cases hb
  · next hones =>
    split at hb
    · next hzeroes =>
      split at hb
      · cases hb
      · cases hb
        refine .inl ⟨hzeroes, rfl, ?_⟩
        rw [hzeroes, hbias, hwidth]
        rfl
    · next hzeroes =>
      cases hb
      have hpos : (unpackExponent b).toNat ≠ 0 := fun h =>
        hzeroes (BitVec.eq_of_toNat_eq h)
      have hlt : (unpackExponent b).toNat ≠ 2047 := fun h => hones (BitVec.eq_of_toNat_eq h)
      have hbound : (unpackExponent b).toNat < 2048 := (unpackExponent b).isLt
      refine .inr ⟨by omega, by omega, toNat_one_append _, ?_⟩
      rw [hbias, hwidth]
      rfl

/-- The exponent of a finite double is the one that rounding would choose. -/
theorem targetExponent_of_unpack (hb : UnpackedFloat.unpack .binary64 b = .finite s m e h) :
    Format.binary64.targetExponent (totalExponent m e) = e := by
  have hmantissa : (unpackMantissa b).toNat < 2 ^ 52 := (unpackMantissa b).isLt
  have htarget : ∀ x, Format.binary64.targetExponent x = max (x - 53) (-1074) := fun _ => rfl
  rw [htarget, totalExponent]
  rcases unpack_eq_finite hb with ⟨-, hm, rfl⟩ | ⟨hpos, -, hm, rfl⟩
  · have := log2_lt h (hm.trans_lt hmantissa)
    omega
  · rw [log2_eq (m := m) (by omega) (by omega)]
    omega

end

/-! ### Rounding what needs no rounding -/

section

variable {m : Nat} {e : Int}

/-- Zeros that are shifted out of a significand leave nothing behind. -/
theorem shiftRight_exact (m k : Nat) :
    (ExtendedMantissa.mk (m * 2 ^ k) false false) >>> k = ⟨m, false, false⟩ := by
  change k.repeat ExtendedMantissa.shiftRightOne _ = _
  induction k generalizing m with
  | zero => simp [Nat.repeat]
  | succ k ih =>
    rw [Nat.repeat, Nat.pow_succ', ← Nat.mul_assoc, ih]
    simp [ExtendedMantissa.shiftRightOne]

section

variable (h : 0 < m) (he : Format.binary64.targetExponent (totalExponent m e) = e)

include h he

/-- A significand with zeros behind it is shifted back to its exponent. -/
theorem shiftToTargetExponent_exact (k : Nat) :
    shiftToTargetExponent .binary64 (m * 2 ^ k) (e - k) .exact = (⟨m, false, false⟩, e) := by
  have htotal : totalExponent (m * 2 ^ k) (e - k) = totalExponent m e := by
    rw [totalExponent, totalExponent, log2_mul_two_pow h.ne']
    omega
  have hamount : (e - (e - k)).toNat = k := by omega
  rw [shiftToTargetExponent, htotal, he, shiftToExponent, hamount]
  exact Prod.ext (shiftRight_exact m k) (by simp)

/-- A significand with zeros behind it is rounded to itself. -/
theorem roundWithAccuracy_exact (s : Sign) (k : Nat) :
    roundWithAccuracy .binary64 s (m * 2 ^ k) (e - k) .exact = .finite s m e h := by
  have hkept : shiftToTargetExponent .binary64 m e .exact = (⟨m, false, false⟩, e) := by
    simpa using shiftToTargetExponent_exact h he 0
  have hrounded : (ExtendedMantissa.mk m false false).roundedMantissa = m := rfl
  rw [roundWithAccuracy]
  simp only [shiftToTargetExponent_exact h he k, hrounded, hkept, dif_neg h.ne']

end

end

/-! ### Doubles -/

/-- The sign, significand and exponent of a double. -/
def unpacked (v : Float) : UnpackedFloat := v.toModel.unpack

/-- The double with the given sign, significand and exponent. -/
def packed (u : UnpackedFloat) : Float := .ofModel (.pack u)

section

variable (v w : Float)

theorem add_eq : v + w = packed (.add .binary64 (unpacked v) (unpacked w)) := rfl

theorem sub_eq : v - w = packed (.sub .binary64 (unpacked v) (unpacked w)) := rfl

theorem mul_eq : v * w = packed (.mul .binary64 (unpacked v) (unpacked w)) := rfl

theorem div_eq : v / w = packed (.div .binary64 (unpacked v) (unpacked w)) := rfl

theorem beq_eq : (v == w) = (unpacked v).beq (unpacked w) := rfl

theorem isFinite_eq : v.isFinite = (unpacked v).isFinite := rfl

theorem lt_iff : v < w ↔ (unpacked v).lt (unpacked w) = true := by
  change decide (v.toModel < w.toModel) = true ↔ _
  rw [decide_eq_true_iff]
  rfl

theorem le_iff : v ≤ w ↔ (unpacked v).le (unpacked w) = true := by
  change decide (v.toModel ≤ w.toModel) = true ↔ _
  rw [decide_eq_true_iff]
  rfl

theorem packed_unpacked : packed (unpacked v) = v := by
  obtain ⟨⟨bits, hvalid⟩⟩ := v
  change Float.ofModel ⟨.ofBitVec (UnpackedFloat.pack .binary64
    (UnpackedFloat.unpack .binary64 bits.toBitVec)), _⟩ = _
  congr
  exact pack_unpack_of_valid hvalid

@[simp] theorem unpacked_packed_zero (s : Sign) : unpacked (packed (.zero s)) = .zero s := by
  cases s <;> rfl

end

variable {v w x : Float}

theorem unpacked_inj (h : unpacked v = unpacked w) : v = w := by
  rw [← packed_unpacked v, h, packed_unpacked]

/-- A double equals zero if it is one of the two zeros. -/
theorem beq_zero_iff : (v == 0) = true ↔ ∃ s, unpacked v = .zero s := by
  rw [beq_eq, show unpacked 0 = .zero .positive from rfl]
  cases unpacked v with
  | zero s => exact iff_of_true rfl ⟨s, rfl⟩
  | infinity s => cases s <;> simp [UnpackedFloat.beq, UnpackedFloat.compare]
  | notANumber => simp [UnpackedFloat.beq, UnpackedFloat.compare]
  | finite s m e h => cases s <;> simp [UnpackedFloat.beq, UnpackedFloat.compare]

/-- Comparisons do not tell the two zeros apart. -/
theorem beq_packed_congr {u : UnpackedFloat}
    (h : u = unpacked v ∨ (∃ s, u = .zero s) ∧ ∃ s, unpacked v = .zero s) :
    (packed u == x) = (v == x) := by
  rcases h with rfl | ⟨⟨s, rfl⟩, s', hv⟩
  · rw [packed_unpacked]
  · rw [beq_eq, beq_eq, unpacked_packed_zero, hv]
    cases unpacked x with
    | infinity s'' => cases s'' <;> rfl
    | finite s'' => cases s'' <;> rfl
    | _ => rfl

theorem sub_beq_of_zero (hw : (w == 0) = true) : (v - w == x) = (v == x) := by
  obtain ⟨s, hw⟩ := beq_zero_iff.1 hw
  rw [sub_eq, hw]
  refine beq_packed_congr ?_
  cases unpacked v with
  | zero s' => exact .inr ⟨by cases s <;> cases s' <;> exact ⟨_, rfl⟩, s', rfl⟩
  | _ => exact .inl rfl

theorem add_beq_of_zero (hw : (w == 0) = true) : (v + w == x) = (v == x) := by
  obtain ⟨s, hw⟩ := beq_zero_iff.1 hw
  rw [add_eq, hw]
  refine beq_packed_congr ?_
  cases unpacked v with
  | zero s' => exact .inr ⟨by cases s <;> cases s' <;> exact ⟨_, rfl⟩, s', rfl⟩
  | _ => exact .inl rfl

theorem zero_add_beq (hv : (v == 0) = true) : (v + w == x) = (w == x) := by
  obtain ⟨s, hv⟩ := beq_zero_iff.1 hv
  rw [add_eq, hv]
  refine beq_packed_congr ?_
  cases unpacked w with
  | zero s' => exact .inr ⟨by cases s <;> cases s' <;> exact ⟨_, rfl⟩, s', rfl⟩
  | _ => exact .inl rfl

theorem mul_beq_zero (hv : v.isFinite = true) (hw : (w == 0) = true) : (v * w == 0) = true := by
  obtain ⟨s, hw⟩ := beq_zero_iff.1 hw
  rw [mul_eq, hw, beq_zero_iff]
  rw [isFinite_eq] at hv
  cases hu : unpacked v with
  | zero s' => exact ⟨_, unpacked_packed_zero _⟩
  | finite s' m e h => exact ⟨_, unpacked_packed_zero _⟩
  | _ => rw [hu] at hv; cases hv

theorem div_beq_zero (hv : (v == 0) = true) (hw : w.isFinite = true) (hne : (w == 0) = false) :
    (v / w == 0) = true := by
  obtain ⟨s, hv⟩ := beq_zero_iff.1 hv
  rw [div_eq, hv, beq_zero_iff]
  rw [isFinite_eq] at hw
  cases hu : unpacked w with
  | zero s' => rw [beq_zero_iff.2 ⟨s', hu⟩] at hne; cases hne
  | finite s' m e h => exact ⟨_, unpacked_packed_zero _⟩
  | _ => rw [hu] at hw; cases hw

/-- Two doubles are equal only if they are the same, or if both are zeros. -/
theorem eq_or_zero_of_beq (h : (v == w) = true) : v = w ∨ (v == 0) = true ∧ (w == 0) = true := by
  obtain ⟨-, -, rfl | ⟨rfl, rfl⟩ | ⟨rfl, rfl⟩⟩ := Float.beq_iff_ne_nan_and_eq.1 h
  · exact .inl rfl
  · exact .inr ⟨by decide +kernel, by decide +kernel⟩
  · exact .inr ⟨by decide +kernel, by decide +kernel⟩

theorem eq_one_of_beq (h : (v == 1) = true) : v = 1 :=
  (eq_or_zero_of_beq h).resolve_right fun hzero => absurd hzero.2 (by decide +kernel)

theorem beq_self (hv : v.isFinite = true) : (v == v) = true := by
  rw [Float.beq_self_iff]
  rintro rfl
  cases hv

theorem mul_one (hv : v.isFinite = true) : v * 1 = v := by
  have hone : unpacked 1 = .finite .positive (2 ^ 52) (-52) (by decide) := rfl
  have hsign : ∀ s : Sign, s * .positive = s := by rintro (_ | _) <;> rfl
  rw [isFinite_eq] at hv
  rw [mul_eq, hone]
  refine Eq.trans ?_ (packed_unpacked v)
  cases hu : unpacked v with
  | zero s => exact congrArg (fun s => packed (.zero s)) (hsign s)
  | finite s m e h =>
    have hround := roundWithAccuracy_exact h (targetExponent_of_unpack hu) s 52
    refine congrArg packed (Eq.trans ?_ hround)
    rw [UnpackedFloat.mul, hsign]
    rfl
  | _ => rw [hu] at hv; cases hv

theorem sub_self_beq_zero (hv : v.isFinite = true) : (v - v == 0) = true := by
  rw [isFinite_eq] at hv
  rw [sub_eq, beq_zero_iff]
  cases hu : unpacked v with
  | zero s => cases s <;> exact ⟨_, unpacked_packed_zero _⟩
  | finite s m e h =>
    refine ⟨.positive, ?_⟩
    rw [UnpackedFloat.sub]
    simp [UnpackedFloat.normalize]
  | _ => rw [hu] at hv; cases hv

theorem sub_beq_zero (hw : w.isFinite = true) (h : (v == w) = true) : (v - w == 0) = true := by
  rcases eq_or_zero_of_beq h with rfl | ⟨hv, hw⟩
  · exact sub_self_beq_zero hw
  · rwa [sub_beq_of_zero hw]

theorem eq_of_beq_zero (h : (v == 0) = true) : v = 0 ∨ v = -0 := by
  obtain ⟨s, hs⟩ := beq_zero_iff.1 h
  cases s with
  | positive => exact .inl (unpacked_inj hs)
  | negative => exact .inr (unpacked_inj hs)

/-- The number is below both zeros. -/
def IsBelowZero : UnpackedFloat → Prop
  | .infinity .negative | .finite .negative .. => True
  | _ => False

theorem lt_zero_iff : v < 0 ↔ IsBelowZero (unpacked v) := by
  rw [lt_iff, show unpacked 0 = .zero .positive from rfl]
  rcases unpacked v with (_ | _) | _ | s | ⟨_ | _, m, e, h⟩ <;>
    simp [UnpackedFloat.lt, UnpackedFloat.compare, IsBelowZero]

section

variable {u u' : UnpackedFloat}

theorem IsBelowZero.of_lt (h' : IsBelowZero u') (h : u.lt u' = true) : IsBelowZero u := by
  rw [UnpackedFloat.lt, beq_iff_eq] at h
  rcases u with (_ | _) | _ | _ | ⟨_ | _, _, _, _⟩ <;>
    rcases u' with (_ | _) | _ | _ | ⟨_ | _, _, _, _⟩ <;>
      first | trivial | cases h

theorem IsBelowZero.lt (h : IsBelowZero u) (h' : ¬ IsBelowZero u') (hnumber : u' ≠ .notANumber) :
    u.lt u' = true := by
  rcases u with (_ | _) | _ | _ | ⟨_ | _, _, _, _⟩ <;>
    rcases u' with (_ | _) | _ | _ | ⟨_ | _, _, _, _⟩ <;>
      first | rfl | exact absurd trivial h' | exact absurd rfl hnumber | cases h

end

theorem lt_zero_of_lt (h : v < w) (hw : w < 0) : v < 0 :=
  lt_zero_iff.2 ((lt_zero_iff.1 hw).of_lt ((lt_iff v w).1 h))

theorem lt_of_lt_zero (h : v < 0) (hw : ¬ w < 0) (hnumber : unpacked w ≠ .notANumber) : v < w := by
  rw [lt_zero_iff] at h hw
  exact (lt_iff v w).2 (h.lt hw hnumber)

theorem lt_zero_of_not_nonneg (h : ¬ 0 ≤ v) (hnumber : unpacked v ≠ .notANumber) : v < 0 := by
  rw [le_iff, show unpacked 0 = .zero .positive from rfl] at h
  rw [lt_zero_iff]
  generalize unpacked v = u at h hnumber ⊢
  rcases u with (_ | _) | _ | _ | ⟨_ | _, _, _, _⟩ <;> trivial

/-- A value that is within some bound of another one is defined. -/
theorem ne_notANumber_of_abs_sub_le (h : (v - w).abs ≤ x) : unpacked w ≠ .notANumber := by
  intro hw
  have hsub : UnpackedFloat.sub .binary64 (unpacked v) .notANumber = .notANumber := by
    cases unpacked v <;> rfl
  have habs : unpacked (v - w).abs = .notANumber := by
    change unpacked (packed (unpacked (v - w)).abs) = _
    rw [sub_eq, hw, hsub]
    rfl
  rw [le_iff, habs] at h
  cases h

theorem correct_ne_notANumber (hv : v.isFinite = true) :
    unpacked (Scalar.correct v) ≠ .notANumber := by
  rcases Snap.snap_eq_or_near v with h | h
  · intro hundefined
    change unpacked (Snap.snap v) = _ at hundefined
    rw [isFinite_eq, ← h, hundefined] at hv
    cases hv
  · exact ne_notANumber_of_abs_sub_le h

theorem isNegative_of_beq_zero (h : (v == 0) = true) : Scalar.isNegative v = false := by
  rcases eq_of_beq_zero h with rfl | rfl <;> decide +kernel

theorem isPositive_of_beq_zero (h : (v == 0) = true) : Scalar.isPositive v = false := by
  rcases eq_of_beq_zero h with rfl | rfl <;> decide +kernel

theorem isNegative_of_beq_one (h : (v == 1) = true) : Scalar.isNegative v = false := by
  rw [eq_one_of_beq h]
  decide +kernel

end Double

instance : LawfulUnits Float where
  zero_beq_zero := by decide +kernel
  one_beq_one := by decide +kernel
  beq_zero_of_one h := by
    rw [Double.eq_one_of_beq h]
    decide +kernel
  mul_zero := Double.mul_beq_zero
  mul_one hv hw := by
    rw [Double.eq_one_of_beq hw, Double.mul_one hv]
    exact Double.beq_self hv
  zero_div := Double.div_beq_zero
  add_zero h _ := Double.add_beq_of_zero h
  zero_add h _ := Double.zero_add_beq h
  sub_zero h _ := Double.sub_beq_of_zero h
  sub_self hw h := Double.sub_beq_zero hw h
  isNegative_zero := Double.isNegative_of_beq_zero
  isPositive_zero := Double.isPositive_of_beq_zero
  isNegative_one := Double.isNegative_of_beq_one
  isNegative_of_not_nonneg hv h :=
    decide_eq_true (Double.lt_zero_of_not_nonneg h (Double.correct_ne_notANumber hv))
  lt_zero_trans := Double.lt_zero_of_lt
  lt_of_isNegative hv hfinite hw :=
    Double.lt_of_lt_zero (of_decide_eq_true hv) (of_decide_eq_false hw)
      (Double.correct_ne_notANumber hfinite)

end LinProg
