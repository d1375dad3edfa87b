import Mathlib.Algebra.Order.Ring.Rat
import LinProg.Arithmetic.Exact

/-!
# Zeros and ones

Rounding changes the results of most operations, but not of those with a zero, and not of a product
with a one. `LawfulUnits` lists what is used of this: finite values absorb no zero and keep a one,
the sign tests read zeros and ones as what they are, and the order around zero is that of numbers.
Equality is the equality test of the arithmetic, so several zeros may exist. Exact arithmetic has
these laws, and so have the doubles.
-/

namespace LinProg

open Scalar Arithmetic

/-- The laws of zeros and ones, up to the equality test. -/
class LawfulUnits (α : Type) [Scalar α] : Prop where
  zero_beq_zero : ((0 : α) == 0) = true
  one_beq_one : ((1 : α) == 1) = true
  /-- No zero is a one. -/
  beq_zero_of_one {v : α} : (v == 1) = true → (v == 0) = false
  /-- A finite multiple of a zero is a zero. -/
  mul_zero {v w : α} : isFinite v = true → (w == 0) = true → (v * w == 0) = true
  /-- A one times a finite value is that value. -/
  mul_one {v w : α} : isFinite v = true → (w == 1) = true → (v * w == v) = true
  /-- A zero divided by a finite value that is not zero is a zero. -/
  zero_div {v w : α} : (v == 0) = true → isFinite w = true → (w == 0) = false → (v / w == 0) = true
  add_zero {v w : α} : (w == 0) = true → ∀ x, (v + w == x) = (v == x)
  zero_add {v w : α} : (v == 0) = true → ∀ x, (v + w == x) = (w == x)
  sub_zero {v w : α} : (w == 0) = true → ∀ x, (v - w == x) = (v == x)
  /-- Equal finite values have no difference. -/
  sub_self {v w : α} : isFinite w = true → (v == w) = true → (v - w == 0) = true
  isNegative_zero {v : α} : (v == 0) = true → isNegative v = false
  isPositive_zero {v : α} : (v == 0) = true → isPositive v = false
  isNegative_one {v : α} : (v == 1) = true → isNegative v = false
  /-- A finite value that is not read as one from zero on is read as negative. -/
  isNegative_of_not_nonneg {v : α} : isFinite v = true → ¬ 0 ≤ correct v → isNegative v = true
  /-- What is below a negative value is negative. -/
  lt_zero_trans {v w : α} : v < w → w < 0 → v < 0
  /-- A finite value that is not read as negative is above every negative value. -/
  lt_of_isNegative {v w : α} : isNegative v = true → isFinite w = true → isNegative w = false →
    correct v < correct w

namespace LawfulUnits

variable {α : Type} [Scalar α] [LawfulUnits α] {c e : Nat → α}

/-- Finite multiples of zeros do not change a sum. -/
theorem foldl_beq_of_zeros {terms : List Nat}
    (h : ∀ k ∈ terms, isFinite (c k) = true ∧ (e k == 0) = true) (s x : α) :
    (terms.foldl (fun s k => s + c k * e k) s == x) = (s == x) := by
  induction terms generalizing s with
  | nil => rfl
  | cons k terms ih =>
    obtain ⟨⟨hfinite, hzero⟩, hterms⟩ := List.forall_mem_cons.1 h
    rw [List.foldl_cons, ih hterms, add_zero (mul_zero hfinite hzero)]

/-- A sum of finite multiples of the entries of a unit list is the multiple of its one. -/
theorem foldl_beq_of_unit {n i : Nat} (hi : i < n) (hfinite : ∀ k < n, isFinite (c k) = true)
    (hone : (e i == 1) = true) (hzero : ∀ k < n, k ≠ i → (e k == 0) = true) :
    ((List.range n).foldl (fun s k => s + c k * e k) 0 == c i) = true := by
  obtain ⟨before, after, hsplit⟩ := List.append_of_mem (List.mem_range.2 hi)
  -- the terms before and after the one are multiples of zeros
  have hzeros : ∀ k ∈ before ++ after, isFinite (c k) = true ∧ (e k == 0) = true := by
    intro k hk
    have hperm : (List.range n).Perm (i :: (before ++ after)) := hsplit ▸ List.perm_middle
    have hk' : k < n := List.mem_range.1 (hperm.mem_iff.2 (List.mem_cons_of_mem _ hk))
    have hki : k ≠ i := by
      rintro rfl
      exact (List.nodup_cons.1 (hperm.nodup_iff.1 List.nodup_range)).1 hk
    exact ⟨hfinite k hk', hzero k hk' hki⟩
  obtain ⟨hbefore, hafter⟩ := List.forall_mem_append.1 hzeros
  have hsum := (foldl_beq_of_zeros hbefore 0 0).trans zero_beq_zero
  rw [hsplit, List.foldl_append, List.foldl_cons, foldl_beq_of_zeros hafter, zero_add hsum]
  exact mul_one (hfinite i hi) hone

end LawfulUnits

instance : LawfulUnits ℚ where
  zero_beq_zero := rfl
  one_beq_one := rfl
  beq_zero_of_one h := by rw [beq_iff_eq.1 h]; rfl
  mul_zero _ h := by simpa using .inr (beq_iff_eq.1 h)
  mul_one _ h := by rw [beq_iff_eq.1 h]; simp
  zero_div h _ _ := by rw [beq_iff_eq.1 h]; simp
  add_zero h _ := by rw [beq_iff_eq.1 h, add_zero]
  zero_add h _ := by rw [beq_iff_eq.1 h, zero_add]
  sub_zero h _ := by rw [beq_iff_eq.1 h, sub_zero]
  sub_self _ h := by rw [beq_iff_eq.1 h]; simp
  isNegative_zero h := by rw [beq_iff_eq.1 h]; rfl
  isPositive_zero h := by rw [beq_iff_eq.1 h]; rfl
  isNegative_one h := by rw [beq_iff_eq.1 h]; rfl
  isNegative_of_not_nonneg _ h := decide_eq_true (not_le.1 h)
  lt_zero_trans := lt_trans
  lt_of_isNegative hv _ hw :=
    (of_decide_eq_true hv).trans_le (not_lt.1 (of_decide_eq_false hw))

end LinProg
