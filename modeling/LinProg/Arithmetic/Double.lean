import LinProg.Arithmetic.Snap

/-!
# Double arithmetic

The doubles of 64 bits with rounding to nearest. Rounding to whole numbers is defined here from the
operations of the type: every double of magnitude 2⁵² or more is whole, and below that the magnitude
passes through an unsigned word without loss. A value is corrected by snapping it to the nearby
fraction of small denominator.
-/

namespace LinProg

namespace Double

/-- The double beyond all numbers. -/
def infinity : Float := Float.ofBits 0x7ff0000000000000

/-- The double below all numbers. -/
def negativeInfinity : Float := Float.ofBits 0xfff0000000000000

/-- Doubles of at least this magnitude have no fractional part. -/
def wholeFrom : Float := Float.ofBits 0x4330000000000000

/-- The value itself if it is zero, infinite or undefined, or so large that it is whole. Otherwise
the integer part of the magnitude with the sign of the value, one less if a negative value has a
fractional part. -/
def floor (value : Float) : Float :=
  if value == 0 then value
  else if value.abs < wholeFrom then
    let whole := value.abs.toUInt64.toFloat
    if value < 0 then (if value < -whole then -whole - 1 else -whole) else whole
  else value

/-- The negated floor of the negated value. -/
def ceil (value : Float) : Float := -floor (-value)

/-- The integer part, towards zero; an undefined value has integer part zero, and what exceeds the
signed words of 64 bits is held at their nearest bound. -/
def truncate (value : Float) : Int :=
  let magnitude : Int := value.abs.toUInt64.toNat
  if value < 0 then max (-magnitude) (-Int.pow 2 63) else min magnitude (Int.pow 2 63 - 1)

end Double

instance : Arithmetic Float where
  zero := 0
  one := 1
  decLt := inferInstance
  decLe := inferInstance
  ofInt := Float.ofInt
  abs := Float.abs
  floor := Double.floor
  ceil := Double.ceil
  truncate := Double.truncate
  isFinite := Float.isFinite
  identical x y := x.toBits == y.toBits

instance : Scalar Float where
  correct := Snap.snap

end LinProg
