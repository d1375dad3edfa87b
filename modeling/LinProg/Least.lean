import LinProg.Arithmetic

/-!
# Positions of least values

The pivot rules choose the position at which some values are least. Values are compared as they are
read after correction. A position without a value takes no part; a later position wins if its value
is strictly smaller, or if it is the same and the position precedes by a further rule.
-/

namespace LinProg

variable {α : Type} [Scalar α]

/-- The better one of the best position so far, with its corrected value, and the next position. -/
@[inline] def better (precedes : Nat → Nat → Bool) (best : Option (Nat × α)) (position : Nat)
    (value : α) : Option (Nat × α) :=
  match best with
  | none => some (position, value)
  | some (holder, least) =>
    if decide (value < least) || (value == least && precedes position holder) then
      some (position, value)
    else best

/-- The position of the least value; among positions of the same value the first, unless a later one
precedes it. -/
def leastIndexBy? (precedes : Nat → Nat → Bool) (values : List (Option α)) : Option Nat :=
  (values.zipIdx.foldl
    (fun best (value, i) =>
      match value with
      | some value => better precedes best i (Scalar.correct value)
      | none => best)
    none).map (·.1)

/-- The first position of the least value. -/
def leastIndex? (values : List (Option α)) : Option Nat := leastIndexBy? (fun _ _ => false) values

end LinProg
