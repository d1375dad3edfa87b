import LinProg.Arithmetic

/-!
# Exact arithmetic

The rational numbers with their own operations. Nothing is rounded, so no value needs correction.
-/

namespace LinProg

instance : Arithmetic Rat where
  zero := 0
  one := 1
  decLt := inferInstance
  decLe := inferInstance
  ofInt n := n
  abs x := if x < 0 then -x else x
  floor x := x.floor
  ceil x := x.ceil
  truncate x := if x < 0 then x.ceil else x.floor
  isFinite _ := true
  identical x y := x == y

instance : Scalar Rat where
  correct x := x

end LinProg
