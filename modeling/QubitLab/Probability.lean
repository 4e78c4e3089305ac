import QubitLab.Double.Scalar
import QubitLab.Error

/-!
# Probabilities

Scalars in the unit interval. What is no number lies outside, since it compares
with nothing.

## Main definitions

* `Probability`: A checked scalar.
* `Probability.ofScalar`: The check.
* `Probability.complement`: The probability of the opposite.
* `Probability.text`: The text with six places.
-/

namespace QubitLab

/-- A scalar in the unit interval. -/
structure Probability (R : Type) [Scalar R] where
  /-- The scalar. -/
  value : R
  /-- It is at least zero. -/
  zero_le : Scalar.le 0 value = true
  /-- It is at most one. -/
  le_one : Scalar.le value 1 = true

namespace Probability

variable {R : Type} [Scalar R]

/-- The probability of the given value, if the value lies in the unit interval. -/
def ofScalar (x : R) : Except (Error R) (Probability R) :=
  if h : Scalar.le 0 x = true ∧ Scalar.le x 1 = true then .ok ⟨x, h.1, h.2⟩
  else .error (.invalidProbability x)

/-- The probability of the opposite event. -/
def complement (p : Probability R) : R := 1 - p.value

/-- The text with six places. -/
def text (p : Probability Float) : String := Decimal.fixedText 6 p.value

end Probability

end QubitLab
