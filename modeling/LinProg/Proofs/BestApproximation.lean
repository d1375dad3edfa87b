import Mathlib.Data.Nat.Fib.Basic
import Mathlib.Data.Rat.Floor
import Mathlib.Tactic.FieldSimp
import Mathlib.Tactic.Linarith
import Mathlib.Tactic.LinearCombination
import LinProg.Arithmetic.Snap

/-!
# Best approximations

Among the fractions of bounded denominator, the last convergent of the continued fraction of a
number is a best approximation of the second kind: none of these fractions lies between it and the
number, and none has a smaller error after multiplication with its denominator. The two properties
together determine how best approximations of two numbers lie to each other: they are in the order
of the numbers.

The continued fraction is described by what remains of it after two consecutive convergents. The
denominators of its convergents grow at least like the Fibonacci numbers.
-/

namespace LinProg

/-! ### Best approximations -/

/-- Among the fractions of denominator at most `n`, none lies between `z` and `v`, and none has a
smaller error than `z` if errors are multiplied with the denominators. -/
structure IsBest (n : ℕ) (v z : ℚ) : Prop where
  den_le : z.den ≤ n
  not_above : ∀ y : ℚ, y.den ≤ n → v < y → ¬ y < z
  not_below : ∀ y : ℚ, y.den ≤ n → z < y → ¬ y < v
  error_le : ∀ y : ℚ, y.den ≤ n → z.den * |v - z| ≤ y.den * |v - y|

namespace IsBest

variable {n : ℕ} {v w z z' : ℚ}

/-- A fraction of small denominator is its own best approximation. -/
theorem refl (hv : v.den ≤ n) : IsBest n v v := by
  refine ⟨hv, fun y _ h => h.not_gt, fun y _ h => h.not_gt, fun y _ => ?_⟩
  rw [sub_self, abs_zero, mul_zero]
  exact mul_nonneg (Nat.cast_nonneg _) (abs_nonneg _)

theorem neg (h : IsBest n v z) : IsBest n (-v) (-z) where
  den_le := h.den_le
  not_above y hy hlt hlt' := h.not_below (-y) hy (lt_neg.1 hlt') (neg_lt.1 hlt)
  not_below y hy hlt hlt' := h.not_above (-y) hy (lt_neg.1 hlt') (neg_lt.1 hlt)
  error_le y hy := by
    have hle := h.error_le (-y) hy
    have herror : |-v - -z| = |v - z| := by rw [← abs_neg, neg_sub_neg, neg_sub]
    have herror' : |-v - y| = |v - -y| := by rw [← abs_neg, neg_sub, sub_neg_eq_add, sub_neg_eq_add,
      add_comm]
    rw [Rat.neg_den] at hle ⊢
    rwa [herror, herror']

/-- No other fraction approximates a fraction of small denominator. -/
theorem eq_of_den_le (h : IsBest n v z) (hv : v.den ≤ n) : z = v := by
  have hle := h.error_le v hv
  rw [sub_self, abs_zero, mul_zero] at hle
  have hpos : (0 : ℚ) < z.den := Nat.cast_pos.2 z.pos
  have hzero : |v - z| ≤ 0 := by
    by_contra hne
    exact absurd (mul_pos hpos (not_le.1 hne)) (not_lt.2 hle)
  exact (sub_eq_zero.1 (abs_nonpos_iff.1 hzero)).symm

/-- Best approximations of two numbers are in the order of the numbers. -/
theorem le_of_lt (h : IsBest n v z) (h' : IsBest n w z') (hlt : v < w) : z ≤ z' := by
  by_contra hcross
  have hcross : z' < z := not_le.1 hcross
  -- neither number lies beyond the approximation of the other one
  have hv : z' < v := by
    rcases lt_trichotomy z' v with hbelow | heq | habove
    · exact hbelow
    · have hz := h.eq_of_den_le (heq ▸ h'.den_le)
      exact absurd (hz.trans heq.symm) hcross.ne'
    · exact absurd hcross (h.not_above z' h'.den_le habove)
  have hw : w < z := by
    rcases lt_trichotomy w z with hbelow | heq | habove
    · exact hbelow
    · have hz' := h'.eq_of_den_le (heq ▸ h.den_le)
      exact absurd (hz'.trans heq) hcross.ne
    · exact absurd habove (h'.not_below z h.den_le hcross)
  have herror := h.error_le z' h'.den_le
  have herror' := h'.error_le z h.den_le
  rw [abs_sub_comm v z, abs_of_pos (sub_pos.2 (hlt.trans hw)), abs_of_pos (sub_pos.2 hv)] at herror
  rw [abs_of_pos (sub_pos.2 (hv.trans hlt)), abs_sub_comm w z, abs_of_pos (sub_pos.2 hw)] at herror'
  have hden : (0 : ℚ) < z.den := Nat.cast_pos.2 z.pos
  have hden' : (0 : ℚ) < z'.den := Nat.cast_pos.2 z'.pos
  have hmono := mul_lt_mul_of_pos_left hlt hden
  have hmono' := mul_lt_mul_of_pos_left hlt hden'
  linarith

end IsBest

/-! ### Continued fractions -/

namespace Convergents

/-- The convergents belong to the continued fraction of `v`, of which `r` remains after them. -/
structure IsOf (c : Convergents) (v r : ℚ) : Prop where
  previousNumerator_nonneg : 0 ≤ c.previousNumerator
  numerator_nonneg : 0 ≤ c.numerator
  previousDenominator_nonneg : 0 ≤ c.previousDenominator
  denominator_pos : 0 < c.denominator
  determinant_eq : c.determinant = 1 ∨ c.determinant = -1
  one_le : 1 ≤ r
  eq : v * (r * c.denominator + c.previousDenominator) = r * c.numerator + c.previousNumerator

/-- The denominators are at least as large as the `n`-th Fibonacci number and the one after it. -/
structure IsGrown (c : Convergents) (n : ℕ) : Prop where
  previousDenominator_ge : (Nat.fib n : ℤ) ≤ c.previousDenominator
  denominator_ge : (Nat.fib (n + 1) : ℤ) ≤ c.denominator

/-- With each term from one on, the denominators grow by one Fibonacci number. -/
theorem IsGrown.next {c : Convergents} {n : ℕ} (h : c.IsGrown n) {term : ℤ} (hterm : 1 ≤ term) :
    (c.next term).IsGrown (n + 1) := by
  refine ⟨h.denominator_ge, ?_⟩
  have hdenominator : 0 ≤ c.denominator := (Int.natCast_nonneg _).trans h.denominator_ge
  have hgrows := le_mul_of_one_le_left hdenominator hterm
  have hprevious := h.previousDenominator_ge
  have hlatest := h.denominator_ge
  rw [Nat.fib_add_two, Nat.cast_add, Convergents.next]
  dsimp only
  linarith

/-- The error of the latest convergent, multiplied with its denominator. -/
def error (c : Convergents) (v : ℚ) : ℚ := c.denominator * v - c.numerator

namespace IsOf

variable {c : Convergents} {v r : ℚ} (h : c.IsOf v r)

include h

/-- The error of the latest convergent, times what comes next as a denominator, is the determinant
with the sign turned. -/
theorem error_mul :
    c.error v * (r * c.denominator + c.previousDenominator) = -(c.determinant : ℚ) := by
  have heq := h.eq
  rw [determinant, error]
  push_cast
  linear_combination (c.denominator : ℚ) * heq

theorem one_le_floor : 1 ≤ ⌊r⌋ := Int.le_floor.2 (by exact_mod_cast h.one_le)

/-- The error of the next convergent is smaller by the fractional part of what remains. -/
theorem error_next : (c.next ⌊r⌋).error v = -(r - ⌊r⌋) * c.error v := by
  have heq := h.eq
  rw [error, error, Convergents.next]
  push_cast
  linear_combination heq

theorem one_le_factor : 1 ≤ r * c.denominator + c.previousDenominator := by
  have hdenominator : (1 : ℚ) ≤ c.denominator := by exact_mod_cast h.denominator_pos
  have hprevious : (0 : ℚ) ≤ c.previousDenominator := by exact_mod_cast h.previousDenominator_nonneg
  exact le_add_of_le_of_nonneg (one_le_mul_of_one_le_of_one_le h.one_le hdenominator) hprevious

theorem abs_error_le_one : |c.error v| ≤ 1 := by
  have hfactor := h.one_le_factor
  have hone : |(c.determinant : ℚ)| = 1 := by
    rcases h.determinant_eq with hdet | hdet <;> rw [hdet] <;> norm_num
  have hproduct := congrArg abs h.error_mul
  rw [abs_mul, abs_neg, hone, abs_of_nonneg (zero_le_one.trans hfactor)] at hproduct
  rw [← hproduct]
  exact le_mul_of_one_le_right (abs_nonneg _) hfactor

/-- The components of the next convergent are not negative, and its denominator is at least one. -/
theorem next_nonneg : 0 ≤ (c.next ⌊r⌋).numerator ∧ 0 < (c.next ⌊r⌋).denominator := by
  have hfloor := h.one_le_floor
  have hpos := mul_pos (zero_lt_one.trans_le hfloor) h.denominator_pos
  exact ⟨add_nonneg (mul_nonneg (zero_le_one.trans hfloor) h.numerator_nonneg)
    h.previousNumerator_nonneg, add_pos_of_pos_of_nonneg hpos h.previousDenominator_nonneg⟩

/-- If something remains after the next term, the next convergents belong to the continued
fraction. -/
theorem next (hfraction : 0 < r - ⌊r⌋) : (c.next ⌊r⌋).IsOf v (1 / (r - ⌊r⌋)) where
  previousNumerator_nonneg := h.numerator_nonneg
  numerator_nonneg := h.next_nonneg.1
  previousDenominator_nonneg := h.denominator_pos.le
  denominator_pos := h.next_nonneg.2
  determinant_eq := by
    rw [determinant_next]
    rcases h.determinant_eq with hdet | hdet
    · exact .inr (by rw [hdet])
    · exact .inl (by rw [hdet, neg_neg])
  one_le := by
    rw [le_div_iff₀ hfraction, one_mul]
    linarith [Int.lt_floor_add_one r]
  eq := by
    have hnext := h.error_next
    have hprevious : (c.next ⌊r⌋).previousDenominator = c.denominator := rfl
    have hprevious' : (c.next ⌊r⌋).previousNumerator = c.numerator := rfl
    rw [error, error] at hnext
    rw [hprevious, hprevious']
    field_simp
    linear_combination hnext

/-- If nothing remains after the next term, the next convergent is the value. -/
theorem next_eq (hfraction : r - ⌊r⌋ = 0) :
    v = (c.next ⌊r⌋).numerator / (c.next ⌊r⌋).denominator := by
  have hnext := h.error_next
  have hpos : (0 : ℚ) < (c.next ⌊r⌋).denominator := by exact_mod_cast h.next_nonneg.2
  rw [hfraction, neg_zero, zero_mul, error, sub_eq_zero] at hnext
  rw [eq_div_iff hpos.ne', mul_comm]
  exact hnext

theorem numerator_next_le : ((c.next ⌊r⌋).numerator : ℚ) ≤ v * (c.next ⌊r⌋).denominator + 1 := by
  have hfraction : 0 ≤ r - ⌊r⌋ := sub_nonneg.2 (Int.floor_le r)
  have hfraction' : r - ⌊r⌋ ≤ 1 := by linarith [Int.lt_floor_add_one r]
  have hshrinks : |(c.next ⌊r⌋).error v| ≤ 1 := by
    rw [h.error_next, abs_mul, abs_neg, abs_of_nonneg hfraction]
    exact mul_le_one₀ hfraction' (abs_nonneg _) h.abs_error_le_one
  have hbelow := (abs_le.1 hshrinks).1
  rw [error] at hbelow
  linarith

/-! ### Fractions of small denominator -/

variable {n : ℕ} (hlast : (n : ℤ) < (c.next ⌊r⌋).denominator)

include hlast

/-- A fraction is combined from the two convergents. If its denominator is smaller than that of the
next convergent, the combination either passes the value by at least the error of the latest
convergent, or stays before it by at least as much. -/
theorem combination {y : ℚ} (hy : y.den ≤ n) : ∃ x z : ℤ,
    (y.den : ℚ) * (v - y) = (x - r * z) * c.error v ∧
    (c.denominator : ℚ) * y.den * (y - c.numerator / c.denominator) =
      z * (c.error v * (r * c.denominator + c.previousDenominator)) ∧
    (0 < z ∧ (x : ℚ) + 1 ≤ r * z ∨ z ≤ 0 ∧ 1 ≤ (x : ℚ) - r * z) := by
  have hsquare : c.determinant * c.determinant = 1 := by
    rcases h.determinant_eq with hdet | hdet <;> rw [hdet] <;> rfl
  obtain ⟨x, z, hnum, hden⟩ : ∃ x z : ℤ, y.num = x * c.numerator + z * c.previousNumerator ∧
      (y.den : ℤ) = x * c.denominator + z * c.previousDenominator := by
    refine ⟨c.determinant * (y.num * c.previousDenominator - y.den * c.previousNumerator),
      c.determinant * (y.den * c.numerator - y.num * c.denominator), ?_, ?_⟩ <;>
      rw [determinant] at hsquare ⊢
    · linear_combination -y.num * hsquare
    · linear_combination -(y.den : ℤ) * hsquare
  have hpos : (0 : ℚ) < c.denominator := by exact_mod_cast h.denominator_pos
  have hnum' : (y.den : ℚ) * y = x * c.numerator + z * c.previousNumerator := by
    rw [mul_comm, Rat.mul_den_eq_num]
    exact_mod_cast hnum
  have hden' : (y.den : ℚ) = x * c.denominator + z * c.previousDenominator := by exact_mod_cast hden
  refine ⟨x, z, ?_, ?_, ?_⟩
  · have heq := h.eq
    rw [error]
    linear_combination v * hden' - hnum' + z * heq
  · rw [h.error_mul, determinant]
    push_cast
    field_simp
    linear_combination (c.denominator : ℚ) * hnum' - (c.numerator : ℚ) * hden'
  · have hone := h.one_le
    rcases lt_or_ge 0 z with hz | hz
    · refine .inl ⟨hz, ?_⟩
      -- otherwise the denominator would be that of the next convergent at least
      have hx : x + 1 ≤ ⌊r⌋ := by
        by_contra hx
        have hfloor : ⌊r⌋ * c.denominator ≤ x * c.denominator :=
          mul_le_mul_of_nonneg_right (by omega) h.denominator_pos.le
        have hprevious := le_mul_of_one_le_left h.previousDenominator_nonneg hz
        have hdenominator : (c.next ⌊r⌋).denominator =
          ⌊r⌋ * c.denominator + c.previousDenominator := rfl
        have hy : (y.den : ℤ) ≤ n := by exact_mod_cast hy
        linarith
      calc (x : ℚ) + 1 ≤ ⌊r⌋ := by exact_mod_cast hx
        _ ≤ r := Int.floor_le r
        _ ≤ r * z := le_mul_of_one_le_right (zero_le_one.trans hone) (by exact_mod_cast hz)
    · refine .inr ⟨hz, ?_⟩
      have hx : 0 < x := by
        have hprevious := mul_nonpos_of_nonpos_of_nonneg hz h.previousDenominator_nonneg
        have hy : 0 < (y.den : ℤ) := by exact_mod_cast y.pos
        exact pos_of_mul_pos_left (by linarith) h.denominator_pos.le
      have hx : (1 : ℚ) ≤ x := by exact_mod_cast hx
      have hrz := mul_nonpos_of_nonneg_of_nonpos (zero_le_one.trans hone)
        (Int.cast_nonpos (R := ℚ).2 hz)
      linarith

/-- No fraction of small denominator lies between the latest convergent and the value. -/
theorem not_between {y : ℚ} (hy : y.den ≤ n) (hvalue : 0 < (v - y) * c.error v) :
    ¬ 0 < (y - c.numerator / c.denominator) * c.error v := by
  intro hlatest
  obtain ⟨x, z, hvalue', hlatest', hside⟩ := h.combination hlast hy
  have hpos : (0 : ℚ) < c.denominator := by exact_mod_cast h.denominator_pos
  have hden : (0 : ℚ) < y.den := by exact_mod_cast y.pos
  have hfactor := zero_lt_one.trans_le h.one_le_factor
  have hsquare : 0 < c.error v * c.error v := by
    refine mul_self_pos.2 fun hzero => ?_
    rw [hzero, mul_zero] at hvalue
    exact hvalue.false
  have hx : 0 < (x - r * z) * (c.error v * c.error v) := by
    have hpositive := mul_pos hden hvalue
    linear_combination hpositive + c.error v * hvalue'
  have hz : 0 < z * (c.error v * c.error v * (r * c.denominator + c.previousDenominator)) := by
    have hpositive := mul_pos (mul_pos hpos hden) hlatest
    linear_combination hpositive + c.error v * hlatest'
  have hx := pos_of_mul_pos_left hx hsquare.le
  have hz := pos_of_mul_pos_left hz (mul_pos hsquare hfactor).le
  rcases hside with ⟨-, hle⟩ | ⟨hle, -⟩
  · linarith
  · exact absurd (Int.cast_pos.1 hz) (not_lt.2 hle)

/-- The last convergent of small denominator is a best approximation. -/
theorem isBest (hdenominator : c.denominator ≤ n) : IsBest n v (c.numerator / c.denominator) := by
  have hpos : (0 : ℚ) < c.denominator := by exact_mod_cast h.denominator_pos
  have hden : (((c.numerator : ℚ) / c.denominator).den : ℤ) ≤ c.denominator := by
    rw [← Rat.divInt_eq_div]
    exact Int.le_of_dvd h.denominator_pos (Rat.den_dvd _ _)
  have herror : c.error v = c.denominator * (v - c.numerator / c.denominator) := by
    rw [error]
    field_simp
  refine ⟨by exact_mod_cast hden.trans hdenominator, fun y hy hlt hlt' => ?_,
    fun y hy hlt hlt' => ?_, fun y hy => ?_⟩
  · have hneg : c.error v < 0 := by
      rw [herror]
      exact mul_neg_of_pos_of_neg hpos (sub_neg.2 (hlt.trans hlt'))
    exact h.not_between hlast hy (mul_pos_of_neg_of_neg (sub_neg.2 hlt) hneg)
      (mul_pos_of_neg_of_neg (sub_neg.2 hlt') hneg)
  · have hpositive : 0 < c.error v := by
      rw [herror]
      exact mul_pos hpos (sub_pos.2 (hlt.trans hlt'))
    exact h.not_between hlast hy (mul_pos (sub_pos.2 hlt') hpositive)
      (mul_pos (sub_pos.2 hlt) hpositive)
  · obtain ⟨x, z, hvalue, -, hside⟩ := h.combination hlast hy
    have hsize : 1 ≤ |(x : ℚ) - r * z| := by
      rcases hside with ⟨-, hle⟩ | ⟨-, hle⟩
      · rw [abs_sub_comm]
        exact le_trans (by linarith) (le_abs_self _)
      · exact hle.trans (le_abs_self _)
    calc (((c.numerator : ℚ) / c.denominator).den : ℚ) * |v - c.numerator / c.denominator|
        ≤ c.denominator * |v - c.numerator / c.denominator| :=
          mul_le_mul_of_nonneg_right (by exact_mod_cast hden) (abs_nonneg _)
      _ = |c.error v| := by rw [herror, abs_mul, abs_of_pos hpos]
      _ ≤ |(x : ℚ) - r * z| * |c.error v| := le_mul_of_one_le_left (abs_nonneg _) hsize
      _ = y.den * |v - y| := by
          rw [← abs_mul, ← hvalue, abs_mul, abs_of_nonneg (Nat.cast_nonneg _)]

end IsOf

end Convergents

end LinProg
