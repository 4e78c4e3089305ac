import QubitLab.Double.Parts

/-!
# Scaling by a power of ten

A whole number of one machine word is taken to a double and then scaled by a power
of ten, with one rounding for the number, one for the power and one for the
product or quotient. The result may be a few units in the last place away from the
nearest double, and it is what number texts are read as.

Every power of ten up to the greatest one that a double can hold is available. A
quotient by a greater power is taken in two steps; a product with one is out of
range.

## Main definitions

* `Double.powerOfTen`: The double nearest to a power of ten.
* `Double.divideByPower`: A double divided by a power of ten.
* `Double.scaleWord?`: A word scaled by a power of ten, if it is in range.
-/

namespace QubitLab

namespace Double

/-- The exponent of the greatest power of ten among the doubles. -/
def greatestPower : Nat := 308

/-- The double nearest to `10 ^ n`. -/
def powerOfTen (n : Nat) : Float := nearest (Nat.pow 10 n) 0

/-- A double divided by `10 ^ n`. Beyond the greatest power the division is done in
    two steps, and a word that has been divided by the greatest power twice is
    zero. -/
def divideByPower (x : Float) (n : Nat) : Float :=
  if n ≤ greatestPower then x / powerOfTen n
  else
    let y := x / powerOfTen greatestPower
    if n - greatestPower ≤ greatestPower then y / powerOfTen (n - greatestPower)
    else 0

/-- A word times `10 ^ exponent`; none when it lies beyond the greatest finite
    double. -/
def scaleWord? (word : Nat) (exponent : Int) : Option Float :=
  let x := nearest word 0
  if word = 0 then some 0
  else if exponent < 0 then some (divideByPower x (-exponent).toNat)
  else if greatestPower < exponent.toNat then none
  else
    let y := x * powerOfTen exponent.toNat
    if y.isFinite then some y else none

end Double

end QubitLab
