import LinProg.Proofs.Double
import LinProg.Problem

/-!
# Doubles as rational numbers

Every finite double denotes a rational number. Turning the sign of a double turns the sign of that
number, also at the zeros and beyond all numbers, and the product with a one or its negative is not
rounded. So the tableau of a problem, which is made by turning signs, is the tableau of the problem
that is read in exact arithmetic.
-/

namespace LinProg

namespace Double

open Float.Model Float.Model.UnpackedFloat

/-! ### Turned signs -/

section

variable {s : Sign}

theorem ofBitVec_unpackSign {e : BitVec 11} {m : BitVec 52} :
    Sign.ofBitVec (unpackSign (packComponents .binary64 s e m)) = s := by
  have hsign : unpackSign (packComponents .binary64 s e m) = s.toBitVec := by
    change (s.toBitVec ++ e ++ m).extractLsb' 63 1 = s.toBitVec
    rw [BitVec.extractLsb'_append_eq_of_le (by decide),
      BitVec.extractLsb'_append_eq_of_le (by decide)]
    cases s <;> rfl
  rw [hsign]
  cases s <;> rfl

/-- The bits of a double with the sign turned. -/
def turned (b : BitVec Format.binary64.numBits) : BitVec Format.binary64.numBits :=
  packComponents .binary64 (-Sign.ofBitVec (unpackSign b)) (unpackExponent b) (unpackMantissa b)

theorem unpack_turned (b : BitVec Format.binary64.numBits) :
    UnpackedFloat.unpack .binary64 (turned b) = (UnpackedFloat.unpack .binary64 b).neg := by
  have hsign : Sign.ofBitVec (unpackSign (turned b)) = -Sign.ofBitVec (unpackSign b) :=
    ofBitVec_unpackSign
  rw [UnpackedFloat.unpack, UnpackedFloat.unpack, hsign, turned]
  simp only [unpackMantissa_packComponents, unpackExponent_packComponents]
  split
  · split <;> rfl
  · split
    · split <;> rfl
    · rfl

/-- Turned bits are those of a double, unless they would be those of no number. -/
theorem valid_turned {b : BitVec Format.binary64.numBits}
    (hb : UnpackedFloat.unpack .binary64 b ≠ .notANumber) : Format.binary64.Valid (turned b) := by
  refine ⟨fun hexponent hmantissa => absurd ?_ hb⟩
  rw [turned, unpackExponent_packComponents] at hexponent
  rw [turned, unpackMantissa_packComponents] at hmantissa
  rw [UnpackedFloat.unpack]
  simp only [if_pos hexponent, if_neg hmantissa]

end

variable {v w : Float}

theorem neg_eq (v : Float) : -v = packed (unpacked v).neg := rfl

/-- Turning the sign of a double changes nothing else. -/
theorem unpacked_neg (v : Float) : unpacked (-v) = (unpacked v).neg := by
  by_cases hnan : unpacked v = .notANumber
  · rw [neg_eq, hnan]
    rfl
  · obtain ⟨⟨bits, hvalid⟩⟩ := v
    have hpack := pack_unpack_of_valid (valid_turned hnan)
    rw [unpack_turned] at hpack
    change UnpackedFloat.unpack .binary64 (UnpackedFloat.pack .binary64
      (UnpackedFloat.unpack .binary64 bits.toBitVec).neg) = _
    rw [hpack, unpack_turned]
    rfl

/-- The product of a finite double and a one with a sign has the digits of the double. -/
theorem mul_unit (s : Sign) (hv : v.isFinite = true) :
    UnpackedFloat.mul .binary64 (.finite s (2 ^ 52) (-52) (by decide)) (unpacked v) =
      match s with
      | .positive => unpacked v
      | .negative => (unpacked v).neg := by
  rw [isFinite_eq] at hv
  cases hu : unpacked v with
  | zero s' => cases s <;> cases s' <;> rfl
  | finite s' m e h =>
    have hround := roundWithAccuracy_exact h (targetExponent_of_unpack hu) (s * s') 52
    rw [UnpackedFloat.mul, Nat.mul_comm, Int.add_comm]
    refine hround.trans ?_
    cases s <;> cases s' <;> rfl
  | _ => rw [hu] at hv; cases hv

theorem one_mul (hv : v.isFinite = true) : 1 * v = v := by
  have hone : unpacked 1 = .finite .positive (2 ^ 52) (-52) (by decide) := rfl
  rw [mul_eq, hone, mul_unit .positive hv, packed_unpacked]

theorem neg_one_mul (hv : v.isFinite = true) : -1 * v = -v := by
  have hone : unpacked (-1) = .finite .negative (2 ^ 52) (-52) (by decide) := rfl
  rw [mul_eq, hone, mul_unit .negative hv, neg_eq]

/-! ### The number that a double denotes -/

/-- The rational number that a finite double denotes, zero for every other. -/
def toRat (v : Float) : ℚ :=
  match unpacked v with
  | .finite s m e _ => (s.apply m : ℤ) * 2 ^ e
  | _ => 0

@[simp] theorem toRat_zero : toRat 0 = 0 := rfl

@[simp] theorem toRat_one : toRat 1 = 1 := by
  have hone : unpacked 1 = .finite .positive (2 ^ 52) (-52) (by decide) := rfl
  rw [toRat, hone]
  norm_num [Sign.apply]

theorem apply_neg (s : Sign) (n : Int) : (-s).apply n = -s.apply n := by
  cases s with
  | negative => exact (Int.neg_neg n).symm
  | positive => rfl

@[simp] theorem toRat_neg (v : Float) : toRat (-v) = -toRat v := by
  rw [toRat, toRat, unpacked_neg]
  cases unpacked v with
  | finite s m e h =>
    change ((-s).apply m : ℚ) * 2 ^ e = -((s.apply m : ℚ) * 2 ^ e)
    rw [apply_neg, Int.cast_neg, neg_mul]
  | _ => rfl

end Double

/-! ### Problems and tableaux read in exact arithmetic -/

/-- The tableau with the rational numbers that its doubles denote. -/
def Tableau.read (t : Tableau Float) : Tableau ℚ where
  rows := t.rows.map (·.map Double.toRat)
  rhs := t.rhs.map Double.toRat
  costs := t.costs.map Double.toRat
  names := t.names
  basis := t.basis

/-- The constraint with the rational numbers that its doubles denote. -/
def Constraint.read (c : Constraint Float) : Constraint ℚ where
  name := c.name
  coefficients := c.coefficients.map Double.toRat
  relation := c.relation
  rhs := Double.toRat c.rhs

namespace Problem

/-- The problem with the rational numbers that its doubles denote. -/
def read (p : Problem Float) : Problem ℚ where
  names := p.names
  objective := ⟨p.objective.coefficients.map Double.toRat, p.objective.minimize⟩
  constraints := p.constraints.map Constraint.read
  integer := p.integer

/-- All coefficients and right sides are actual numbers. -/
structure IsFinite (p : Problem Float) : Prop where
  objective : ∀ v ∈ p.objective.coefficients, v.isFinite = true
  constraints : ∀ c ∈ p.constraints,
    (∀ v ∈ c.coefficients, v.isFinite = true) ∧ c.rhs.isFinite = true

end Problem

end LinProg
