import LinProg.Decimal

/-!
# Shortest decimals

The shortest decimal of a positive double is the one with the fewest digits among the decimals that
round to it, and of those the nearest. The reals that round to m · 2^q lie between the midpoints to
its neighbours, which count themselves iff m is even. Multiples of a power of ten are searched from
large powers to small ones; on each such grid only the two multiples next to the value need to be
tried.
-/

namespace LinProg

namespace Decimal

/-- The midpoint between a double and the one below it, in quarters of its last place. Below a power
of two the doubles lie twice as close. -/
def lowerQuarters (significand : Nat) (exponent : Int) : Nat :=
  if significand = Nat.pow 2 52 ∧ exponent ≠ -1074 then 4 * significand - 1 else 4 * significand - 2

/-- The multiple of `10 ^ power` that rounds to the double and is nearest to it, of two equally near
ones the even one, if a multiple next to the double rounds to it. All comparisons are between whole
numbers: the decimal side is multiplied by `tens` and the binary side, in quarters of the last
place, by `twos`. -/
def onGrid? (significand : Nat) (exponent power : Int) : Option Nat :=
  let tens := Nat.pow 10 power.toNat * Nat.pow 2 (2 - exponent).toNat
  let twos := Nat.pow 2 (exponent - 2).toNat * Nat.pow 10 (-power).toNat
  let value := 4 * significand * twos
  let lower := lowerQuarters significand exponent * twos
  let upper := (4 * significand + 2) * twos
  let inside (multiple : Nat) : Bool :=
    if significand % 2 = 0 then decide (lower ≤ multiple * tens) && decide (multiple * tens ≤ upper)
    else decide (lower < multiple * tens) && decide (multiple * tens < upper)
  let below := value / tens
  let above := below + 1
  match inside below, inside above with
  | false, false => none
  | true, false => some below
  | false, true => some above
  | true, true =>
    let down := value - below * tens
    let up := above * tens - value
    if down < up ∨ (down = up ∧ below % 2 = 0) then some below else some above

/-- The first hit on the grids from the given power of ten downwards. -/
def searchGrids (significand : Nat) (exponent : Int) : Nat → Int → Option Decimal
  | 0, _ => none
  | grids + 1, power =>
    match onGrid? significand exponent power with
    | some multiple => some ⟨multiple, power⟩
    | none => searchGrids significand exponent grids (power - 1)

/-- A power of ten above the value: the binary logarithm times a little more than the decimal
logarithm of two. -/
def topPower (significand : Nat) (exponent : Int) : Int :=
  ((significand.log2 : Int) + 1 + exponent) * 30103 / 100000 + 1

/-- The shortest decimal of the double with the given significand and exponent, zero for zero.
Seventeen digits always suffice, so twenty grids below the top are enough. -/
def shortest (significand : Nat) (exponent : Int) : Decimal :=
  if significand = 0 then ⟨0, 0⟩
  else (searchGrids significand exponent 20 (topPower significand exponent)).getD ⟨0, 0⟩

end Decimal

/-- The shortest decimal text of a double, without exponent and without a point if it is whole. -/
def Double.plainText (value : Float) : String :=
  match Double.parts? value with
  | none => Double.specialText value
  | some parts =>
    let text := (Decimal.shortest parts.significand parts.exponent).positional
    if parts.negative then "-" ++ text else text

end LinProg
