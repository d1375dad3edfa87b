/-!
# Decimals

A decimal is a whole coefficient times a power of ten. `Decimal.positional` writes it with a point
and without exponent. A double stands for a whole significand times a power of two; `Double.parts`
takes it apart, which is the first step of writing it exactly.
-/

namespace LinProg

/-- A coefficient times a power of ten. -/
structure Decimal where
  /-- The coefficient. -/
  coefficient : Nat
  /-- The exponent of ten. -/
  exponent : Int
deriving Repr, DecidableEq

namespace Decimal

/-- The digits of the coefficient. -/
def digits (d : Decimal) : List Char := Nat.toDigits 10 d.coefficient

/-- The number of digits before the point; zero or negative if the decimal is less than one tenth or
begins with zeros after the point. -/
def pointPosition (d : Decimal) : Int := d.digits.length + d.exponent

/-- The digits before the point and after it, without exponent. -/
def splitDigits (d : Decimal) : List Char × List Char :=
  let point := d.pointPosition
  if point ≤ 0 then (['0'], List.replicate (-point).toNat '0' ++ d.digits)
  else
    let padded := d.digits ++ List.replicate d.exponent.toNat '0'
    (padded.take point.toNat, padded.drop point.toNat)

/-- The decimal without exponent, and without a point if it is whole. -/
def positional (d : Decimal) : String :=
  match d.splitDigits with
  | (whole, []) => String.ofList whole
  | (whole, fraction) => String.ofList (whole ++ '.' :: fraction)

end Decimal

/-- The sign, significand and binary exponent of a double. -/
structure Double.Parts where
  /-- Whether the sign bit is set. -/
  negative : Bool
  /-- The significand. -/
  significand : Nat
  /-- The exponent of two. -/
  exponent : Int
deriving Repr, DecidableEq

/-- The parts of a double that is neither infinite nor undefined. -/
def Double.parts? (value : Float) : Option Double.Parts :=
  let bits := value.toBits.toNat
  let negative := decide (Nat.pow 2 63 ≤ bits)
  let biased : Nat := bits / Nat.pow 2 52 % Nat.pow 2 11
  let stored := bits % Nat.pow 2 52
  if biased = 2047 then none
  else if biased = 0 then some ⟨negative, stored, -1074⟩
  else some ⟨negative, stored + Nat.pow 2 52, (biased : Int) - 1075⟩

/-- The text of an infinite or undefined double. -/
def Double.specialText (value : Float) : String :=
  if value.isNaN then "NaN" else if value < 0 then "-inf" else "inf"

end LinProg
