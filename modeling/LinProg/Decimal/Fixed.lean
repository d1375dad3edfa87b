import LinProg.Decimal

/-!
# Decimals with a fixed number of places

A double is rounded, as the exact number it stands for, to a multiple of a power of one tenth; a
value half way between two multiples goes to the even one. The sign is kept, also for zero.
-/

namespace LinProg

/-- A quotient rounded to the nearest whole number, and to the even one if two are equally near. -/
def roundHalfEven (numerator denominator : Nat) : Nat :=
  let quotient := numerator / denominator
  let twice := 2 * (numerator % denominator)
  if twice < denominator ∨ (twice = denominator ∧ quotient % 2 = 0) then quotient else quotient + 1

/-- The rounded quotient lies within one half of the exact one. -/
theorem roundHalfEven_near (numerator denominator : Nat) (h : 0 < denominator) :
    2 * numerator ≤ (2 * roundHalfEven numerator denominator + 1) * denominator ∧
      2 * roundHalfEven numerator denominator * denominator ≤ 2 * numerator + denominator := by
  have split := Nat.div_add_mod numerator denominator
  have less := Nat.mod_lt numerator h
  unfold roundHalfEven
  dsimp only
  generalize numerator / denominator = quotient at *
  generalize numerator % denominator = rest at *
  subst split
  split <;> constructor <;> grind

/-- The digits of a whole number of units of the last of some decimal places, with the point. -/
def placesText (places units : Nat) : String :=
  let digits := Nat.toDigits 10 units
  let padded := List.replicate (places + 1 - digits.length) '0' ++ digits
  let whole := padded.length - places
  String.ofList (padded.take whole ++ '.' :: padded.drop whole)

/-- A double written with the given number of decimal places, at least one. -/
def Double.fixedText (places : Nat) (value : Float) : String :=
  match Double.parts? value with
  | none => Double.specialText value
  | some parts =>
    let units := roundHalfEven
      (parts.significand * Nat.pow 2 parts.exponent.toNat * Nat.pow 10 places)
      (Nat.pow 2 (-parts.exponent).toNat)
    (if parts.negative then "-" else "") ++ placesText places units

end LinProg
