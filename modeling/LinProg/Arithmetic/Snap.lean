import LinProg.Arithmetic

/-!
# Snapping to fractions of small denominator

A computed value that lies within a small tolerance of a fraction h / k with k at most ten thousand
is read as that fraction. The fraction is the last convergent of the continued fraction of the value
whose denominator is small enough. The definitions hold for any arithmetic, so the same function can
be run on doubles and studied on rational numbers.
-/

namespace LinProg

/-- Two consecutive convergents of a continued fraction, the latest one last. -/
structure Convergents where
  /-- Numerator of the convergent before. -/
  previousNumerator : Int
  /-- Numerator of the latest convergent. -/
  numerator : Int
  /-- Denominator of the convergent before. -/
  previousDenominator : Int
  /-- Denominator of the latest convergent. -/
  denominator : Int
deriving Repr, DecidableEq

namespace Convergents

/-- The formal convergents 0/1 and 1/0 that come before every continued fraction. -/
def seed : Convergents := ⟨0, 1, 1, 0⟩

/-- The convergents after one more term of the continued fraction. -/
def next (c : Convergents) (term : Int) : Convergents :=
  ⟨c.numerator, term * c.numerator + c.previousNumerator,
    c.denominator, term * c.denominator + c.previousDenominator⟩

/-- The first term of a continued fraction is its first convergent. -/
theorem seed_next (n : Int) : seed.next n = ⟨1, n, 0, 1⟩ := by
  simp [next, seed]

/-- The determinant of two consecutive convergents. -/
def determinant (c : Convergents) : Int :=
  c.numerator * c.previousDenominator - c.previousNumerator * c.denominator

theorem determinant_seed : seed.determinant = 1 := rfl

/-- Each term of a continued fraction negates the determinant, so that it stays one or minus one and
numerators have no factor in common with their denominators. -/
theorem determinant_next (c : Convergents) (term : Int) :
    (c.next term).determinant = -c.determinant := by
  unfold determinant next
  grind

end Convergents

/-- The integer is held by a signed word of 64 bits. -/
def fitsWord (n : Int) : Bool := decide (-Int.pow 2 63 ≤ n) && decide (n < Int.pow 2 63)

theorem fitsWord_iff {n : Int} :
    fitsWord n = true ↔ -9223372036854775808 ≤ n ∧ n < 9223372036854775808 := by
  rw [fitsWord, Bool.and_eq_true, decide_eq_true_iff, decide_eq_true_iff]
  rfl

namespace Snap

/-- The largest denominator a value may be snapped to. -/
def maxDenominator : Int := 10000

/-- Bound on the number of terms of a continued fraction. -/
def maxTerms : Nat := 64

/-- The next term of a continued fraction yields a convergent that may still be used: the products
and sums fit in a word, and the denominator is small. -/
def admits (c : Convergents) (term : Int) : Bool :=
  fitsWord (term * c.numerator) && fitsWord (c.next term).numerator &&
    fitsWord (term * c.denominator) && fitsWord (c.next term).denominator &&
    decide ((c.next term).denominator ≤ maxDenominator)

/-- A first term up to the bound of a snap is admitted. -/
theorem admits_seed {n : Int} (h : 0 ≤ n) (hle : n ≤ 1000000000000000) :
    admits .seed n = true := by
  simp only [admits, Bool.and_eq_true, fitsWord_iff, decide_eq_true_eq, Convergents.seed_next]
  simp only [Convergents.seed, maxDenominator]
  omega

section

variable {α : Type} [Arithmetic α]

open Arithmetic

/-- Relative tolerance of a snap, one part in a thousand million. -/
@[inline] def relativeTolerance : α := 1 / ofInt 1000000000

/-- Largest absolute tolerance of a snap, one millionth. -/
@[inline] def maxTolerance : α := 1 / ofInt 1000000

/-- Values of larger magnitude are never snapped. -/
@[inline] def maxMagnitude : α := ofInt 1000000000000000

/-- A fractional part below this is taken for zero. -/
@[inline] def resolution : α := 1 / ofInt 4503599627370496

/-- The convergents of the continued fraction of a non-negative remainder, continued from given ones
for at most the given number of terms: it ends when the next convergent is not admitted, or when no
fractional part is left. -/
@[specialize] def refine : Nat → α → Convergents → Convergents
  | 0, _, c => c
  | terms + 1, remainder, c =>
    let whole := floor remainder
    let term := truncate whole
    if admits c term then
      let fraction := remainder - whole
      if fraction < resolution then c.next term else refine terms (1 / fraction) (c.next term)
    else c

/-- Numerator and denominator of the fraction that approximates a value, with the sign of the value
in the numerator. Where the continued fraction has no denominator, the value is approximated by its
integer part. -/
@[specialize] def approximate (value : α) : Int × Int :=
  let c := refine maxTerms (abs value) .seed
  if c.denominator = 0 then (truncate value, 1)
  else (if value < 0 then -c.numerator else c.numerator, c.denominator)

/-- A continued fraction with a denominator gives its last convergent, with the sign of the
value. -/
theorem approximate_eq {value : α} (h : (refine maxTerms (abs value) .seed).denominator ≠ 0) :
    approximate value =
      (if value < 0 then -(refine maxTerms (abs value) .seed).numerator
        else (refine maxTerms (abs value) .seed).numerator,
        (refine maxTerms (abs value) .seed).denominator) :=
  if_neg h

/-- How far a value may lie from the fraction it is snapped to. -/
@[specialize] def tolerance (value : α) : α :=
  let magnitude := abs value
  let bound := relativeTolerance * (if magnitude < 1 then 1 else magnitude)
  if maxTolerance < bound then maxTolerance else bound

/-- The value itself if it is infinite, undefined or very large, or if its approximating fraction is
further away than the tolerance; that fraction otherwise. -/
@[specialize] def snap (value : α) : α :=
  if !isFinite value || decide (maxMagnitude < abs value) then value
  else
    let (numerator, denominator) := approximate value
    let snapped := ofInt numerator / ofInt denominator
    if abs (value - snapped) ≤ tolerance value then snapped else value

end

end Snap

end LinProg
