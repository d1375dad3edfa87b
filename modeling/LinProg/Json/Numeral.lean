import LinProg.Json

/-!
# Numerals of JSON

There are two ways to read a numeral. `Numeral.nearest` is the double nearest to the exact number it
writes, also if it has more digits than a double can hold. `Numeral.scaled` keeps the digits that
fit into a word and multiplies or divides them by a power of ten, rounding at each step: it is the
cheaper one, and may miss the nearest double in the last place if the digits or the power are not
themselves doubles. A numeral whose magnitude is infinite has no value.
-/

namespace LinProg

/-- A numeral as it is written. -/
structure Numeral where
  /-- Whether it begins with a minus sign. -/
  negative : Bool
  /-- The digits before the point. -/
  whole : List Nat
  /-- The digits after the point. -/
  fraction : List Nat
  /-- Whether the exponent is negative. -/
  exponentNegative : Bool
  /-- The digits of the exponent, none if there is no exponent. -/
  exponentDigits : List Nat
deriving Repr, DecidableEq

namespace Numeral

/-- The number that a list of digits writes. -/
def ofDigits (digits : List Nat) : Nat := digits.foldl (fun n digit => n * 10 + digit) 0

/-- The digits as a whole number, without point and exponent. -/
def significand (n : Numeral) : Nat := ofDigits (n.whole ++ n.fraction)

/-- The exponent as it is written, zero if there is none. -/
def writtenExponent (n : Numeral) : Int :=
  if n.exponentNegative then -(ofDigits n.exponentDigits : Int) else ofDigits n.exponentDigits

/-! ### The nearest double -/

/-- The power of ten that the significand is multiplied by. -/
def exponent (n : Numeral) : Int := n.writtenExponent - n.fraction.length

/-- The double nearest to the magnitude of a numeral, infinite if that is beyond the numbers.
Exponents far outside the range of the doubles are decided by the position of the first digit, so
that no large power is formed. -/
def nearest (n : Numeral) : Float :=
  let leading : Int := (n.whole ++ n.fraction).length + n.exponent
  if n.significand = 0 ∨ leading < -400 then 0
  else if n.exponent < 0 then Float.ofScientific n.significand true n.exponent.natAbs
  else if n.exponent ≤ 400 then Float.ofScientific n.significand false n.exponent.natAbs
  else 1 / 0

/-! ### Digits of a word, scaled -/

/-- Digits appended to a significand as long as it stays below 2 ^ 64, and the digits left over. -/
def appendDigits (significand : Nat) : List Nat → Nat × List Nat
  | [] => (significand, [])
  | digit :: rest =>
    if significand * 10 + digit < Nat.pow 2 64 then appendDigits (significand * 10 + digit) rest
    else (significand, digit :: rest)

/-- The significand stays within a word. -/
theorem appendDigits_lt (significand : Nat) (digits : List Nat) (h : significand < Nat.pow 2 64) :
    (appendDigits significand digits).1 < Nat.pow 2 64 := by
  induction digits generalizing significand with
  | nil => exact h
  | cons digit rest ih =>
    unfold appendDigits
    split
    · next fits => exact ih _ fits
    · exact h

/-- The digits that fit into a word, and the power of ten they are multiplied by. Digits left over
before the point count as zeros, those after it are passed over. -/
def wordParts (n : Numeral) : Nat × Int :=
  let (wholePart, leftWhole) := appendDigits 0 n.whole
  let (significand, leftFraction) := appendDigits wholePart n.fraction
  (significand, n.writtenExponent + leftWhole.length - (n.fraction.length - leftFraction.length))

/-- A power of ten as a double. -/
def powerOfTen (power : Nat) : Float := Float.ofScientific 1 false power

/-- A double divided by a power of ten, by at most 308 places at a time. -/
def shiftDown (value : Float) (places : Nat) : Float :=
  if value == 0 then value
  else if places ≤ 308 then value / powerOfTen places
  else shiftDown (value / powerOfTen 308) (places - 308)
termination_by places

/-- The magnitude of a numeral by its digits that fit into a word, infinite if that is beyond the
numbers. -/
def scaled (n : Numeral) : Float :=
  let (significand, power) := n.wordParts
  let value := Float.ofScientific significand false 0
  if significand = 0 then 0
  else if power < 0 then shiftDown value power.natAbs
  else if power ≤ 308 then value * powerOfTen power.toNat
  else 1 / 0

/-! ### Documents -/

/-- The document of a numeral whose magnitude is read in the given way. -/
def toJson (magnitude : Numeral → Float) (n : Numeral) : Json :=
  let value := magnitude n
  if value.isFinite then .number (if n.negative then -value else value) else .malformed

end Numeral

end LinProg
