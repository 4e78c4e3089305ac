import QubitLab.Double.Parts

/-!
# Decimal numbers

A decimal is a whole number times a power of ten. This module has the decimal
itself, the exact binary quantity that it is compared with, and the rounding of
the one to the other at a chosen place.

## Main definitions

* `Decimal`: A coefficient times a power of ten.
* `Quantity`: A positive rational number.
* `Quantity.ofBinary`: A whole number times a power of two, exactly.
* `Quantity.magnitude`: The place of the leading digit.
* `Quantity.onGrid`: The quantity measured in units of a power of ten.
* `Quantity.roundTo`: The nearest multiple of a power of ten.
-/

namespace QubitLab

/-- The number `coefficient * 10 ^ exponent`. -/
structure Decimal where
  /-- The digits, as one whole number. -/
  coefficient : Nat
  /-- The place of the last digit. -/
  exponent : Int
deriving Repr, DecidableEq

namespace Decimal

/-- Zero, written with one digit. -/
def zero : Decimal := ⟨0, 0⟩

/-- The digits from the first to the last. -/
def digits (d : Decimal) : List Char := Nat.toDigits 10 d.coefficient

/-- The place of the first digit. -/
def leadingPlace (d : Decimal) : Int := d.exponent + (d.digits.length - 1 : Nat)

end Decimal

/-- A positive rational number `num / den`. -/
structure Quantity where
  /-- The numerator. -/
  num : Nat
  /-- The denominator. -/
  den : Nat
deriving Repr, DecidableEq

namespace Quantity

/-- The number `m * 2 ^ e`. -/
def ofBinary (m : Nat) (e : Int) : Quantity :=
  if 0 ≤ e then ⟨m <<< e.toNat, 1⟩ else ⟨m, 1 <<< (-e).toNat⟩

/-- The quantity in units of `10 ^ place`. -/
def onGrid (v : Quantity) (place : Int) : Quantity :=
  if 0 ≤ place then ⟨v.num, v.den * Nat.pow 10 place.toNat⟩
  else ⟨v.num * Nat.pow 10 (-place).toNat, v.den⟩

/-- The number of decimal digits of a whole number. -/
def digitCount (n : Nat) : Nat := (Nat.toDigits 10 n).length

/-- The place of the leading digit: the greatest `p` with `10 ^ p` at most the
    quantity. The digit counts of the two parts leave two candidates. -/
def magnitude (v : Quantity) : Int :=
  let p : Int := (digitCount v.num : Int) - digitCount v.den
  let unit := v.onGrid p
  if unit.den ≤ unit.num then p else p - 1

/-- The nearest whole number of units of `10 ^ place`, a half to the even one. -/
def roundTo (v : Quantity) (place : Int) : Nat :=
  let unit := v.onGrid place
  Double.roundQuotient unit.num unit.den

end Quantity

end QubitLab
