/-!
# Arithmetic

A linear program is solved over some type of numbers. `Arithmetic` lists the operations that the
solver takes from it: the four operations, comparisons that are decided, rounding to whole numbers
and the passage from integers. `Scalar` adds one more, `correct`, which replaces a computed value by
the value it is read as in every sign test, every minimum and every tie.

Two readings are given elsewhere: the rational numbers, where every operation is exact and nothing
needs correction, and the doubles, where a value is read as the nearby fraction of small
denominator.
-/

namespace LinProg

/-- The operations on numbers. The order and the equality test are decided, and the equality test
may identify values that differ, as it does for the two zeros of the doubles. -/
class Arithmetic (α : Type) extends
    Add α, Sub α, Mul α, Div α, Neg α, Zero α, One α, LT α, LE α, BEq α where
  /-- The strict order is decided. -/
  decLt : DecidableLT α
  /-- The order is decided. -/
  decLe : DecidableLE α
  /-- The number nearest to an integer. -/
  ofInt : Int → α
  /-- The magnitude of a number. -/
  abs : α → α
  /-- The largest whole number that is at most the given one. -/
  floor : α → α
  /-- The least whole number that is at least the given one. -/
  ceil : α → α
  /-- The integer part, towards zero, held within the signed words of 64 bits where the type has
  values outside them. -/
  truncate : α → Int
  /-- Whether a value is an actual number, neither infinite nor undefined. -/
  isFinite : α → Bool
  /-- Whether two values are the same in every respect. -/
  identical : α → α → Bool

namespace Arithmetic

variable {α : Type} [Arithmetic α]

instance instDecidableLT : DecidableLT α := decLt

instance instDecidableLE : DecidableLE α := decLe

/-- Whether a value equals its own integer part; no infinite or undefined value does. -/
@[specialize] def isWhole (value : α) : Bool :=
  isFinite value && floor value == value

end Arithmetic

/-- Numbers with a correction: `correct v` is the value that `v` is read as. -/
class Scalar (α : Type) extends Arithmetic α where
  /-- The value that a computed value is read as. -/
  correct : α → α

namespace Scalar

variable {α : Type} [Scalar α]

/-- The value is read as zero. -/
@[inline] def isZero (value : α) : Bool := correct value == 0

/-- The value is read as a number below zero. -/
@[inline] def isNegative (value : α) : Bool := decide (correct value < 0)

/-- The value is read as a number above zero. -/
@[inline] def isPositive (value : α) : Bool := decide (0 < correct value)

/-- The value is read as a whole number. -/
@[inline] def isInteger (value : α) : Bool := Arithmetic.isWhole (correct value)

end Scalar

end LinProg
