/-!
# Real scalars

The real arithmetic that gate matrices, noise rates and amplitudes are built
from. The library is written over the operations alone, so the same definitions
run on double precision numbers and can be read over any other scalars.

Comparisons are functions to `Bool`, because the scalars need not be totally
ordered: for a value that is not a number every comparison is false.

## Main definitions

* `Scalar`: The operations.
* `Scalar.half`: One half.
* `Scalar.larger`: The larger of two scalars, passing over what is no number.
* `Scalar.unitaryTolerance`: How far a matrix may be from unitary.
* `Scalar.zeroNorm`: The squared norm below which a state counts as lost.
-/

namespace QubitLab

/-- The operations of real arithmetic that the library computes with. -/
class Scalar (R : Type) extends Zero R, One R, Add R, Sub R, Mul R, Neg R, Div R where
  /-- The scalar of a natural number. -/
  ofNat : Nat → R
  /-- Half the circumference of the unit circle. -/
  pi : R
  /-- The square root. -/
  sqrt : R → R
  /-- The sine of an angle in radians. -/
  sin : R → R
  /-- The cosine of an angle in radians. -/
  cos : R → R
  /-- The length of the hypotenuse over two legs. -/
  hypot : R → R → R
  /-- Strictly less. -/
  lt : R → R → Bool
  /-- Less or equal. -/
  le : R → R → Bool
  /-- True of the scalars that stand for a real number. -/
  isFinite : R → Bool

namespace Scalar

variable {R : Type} [Scalar R]

/-- One half. -/
def half : R := 1 / ofNat 2

/-- The larger of two scalars. A first operand that is not comparable with
    itself gives way to the second, and a second such operand is passed over. -/
def larger (a b : R) : R :=
  if lt a b || !le a a then b else a

/-- True when two scalars compare as equal. -/
def same (a b : R) : Bool := le a b && le b a

/-- A matrix whose product with its adjoint is within this distance of the
    identity, entry by entry, counts as unitary. -/
def unitaryTolerance : R := 1 / ofNat 100000000

/-- A squared norm or probability that is not above this counts as zero. -/
def zeroNorm : R := 1 / ofNat 1000000000000000

end Scalar

end QubitLab
