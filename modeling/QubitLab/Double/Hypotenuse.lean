import QubitLab.Double.Parts

/-!
# The length of a hypotenuse

The root of a sum of two squares, improved by one correction. The squares, their
sum and the root are each rounded, so the first length `h` is a little off. How much
`h * h` exceeds the sum of the squares is then computed from the small difference
between `h` and one of the legs, where nothing cancels, and one step of Newton's
iteration takes the excess away. The result may still differ from the nearest
double in the last place.

Squares of very long legs would overflow, and squares of very short ones would lose
their places, so such legs are scaled by a power of two beforehand and the result is
scaled back. A leg that is too short to change the length is added to the other.

## Main definitions

* `Double.powerOfTwo`: A power of two.
* `Double.excess`: How much the square of a length exceeds a sum of squares.
* `Double.correctedRoot`: The root of a sum of squares, after one correction.
* `Double.hypotenuse`: The length of a hypotenuse.
-/

namespace QubitLab

namespace Double

/-- The double `2 ^ e`. -/
def powerOfTwo (e : Int) : Float := nearest 1 e

/-- How much `h * h` exceeds `a * a + b * b`, for a length `h` over the legs `a` and
    `b` of which `a` is the longer. With `d` for the difference between `h` and a
    leg, the two forms are one polynomial; the leg is the shorter one unless it is
    below half the length. -/
def excess (h a b : Float) : Float :=
  if h ≤ 2 * b then
    let d := h - b
    a * (2 * d - a) + (d - 2 * (a - b)) * d
  else
    let d := h - a
    2 * d * (a - 2 * b) + ((4 * d - b) * b + d * d)

/-- The root of `a * a + b * b`, where `a` is the longer leg, after one step of
    Newton's iteration. -/
def correctedRoot (a b : Float) : Float :=
  let h := Float.sqrt (a * a + b * b)
  h - excess h a b / (2 * h)

/-- A longer leg beyond this has its length taken on a lesser scale. -/
def longLeg : Float := powerOfTwo 511

/-- A shorter leg below this has the length taken on a greater scale. -/
def shortLeg : Float := powerOfTwo (-459)

/-- The scale on which the lengths over very long legs are taken; those over very
    short ones are taken on its inverse. -/
def legScale : Float := powerOfTwo (-600)

/-- A leg that is shorter than this part of the other one does not change the
    length by more than a rounding. -/
def negligiblePart : Float := powerOfTwo (-54)

/-- The length of the hypotenuse over finite legs, of which `a` is the longer. -/
def finiteHypotenuse (a b : Float) : Float :=
  if longLeg < a then
    if b ≤ a * negligiblePart then a + b
    else correctedRoot (a * legScale) (b * legScale) / legScale
  else if b < shortLeg then
    if b / negligiblePart ≤ a then a + b
    else correctedRoot (a / legScale) (b / legScale) * legScale
  else if b ≤ a * negligiblePart then a + b
  else correctedRoot a b

/-- The length of the hypotenuse over the legs `x` and `y`. An infinite leg makes
    it infinite whatever the other leg is. -/
def hypotenuse (x y : Float) : Float :=
  let a := x.abs
  let b := y.abs
  if x.isInf then a
  else if y.isInf then b
  else if x.isNaN || y.isNaN then x + y
  else if a < b then finiteHypotenuse b a
  else finiteHypotenuse a b

end Double

end QubitLab
