/-!
# The parts of a double precision number

A finite double is a whole number times a power of two. `Double.parts` reads the
sign, the whole number and the power off the bits, and `Double.nearest` goes the
other way: it takes an exact whole number times a power of two to the nearest
double. Everything between the two is exact arithmetic on whole numbers.

## Main definitions

* `Double.Parts`: What a bit pattern stands for.
* `Double.parts`: The parts of a double.
* `Double.roundQuotient`: A quotient rounded to the nearest whole number.
* `Double.assemble`: The double of a significand and a unit.
* `Double.nearest`: The double nearest to a whole number times a power of two.
-/

namespace QubitLab

namespace Double

/-- What a double precision bit pattern stands for. -/
inductive Parts where
  /-- Not a number. -/
  | nan
  /-- An infinity of either sign. -/
  | infinite (negative : Bool)
  /-- The number `significand * 2 ^ exponent`, negated when `negative`. -/
  | finite (negative : Bool) (significand : Nat) (exponent : Int)
deriving Repr, DecidableEq

/-- The least power of two that a double is a multiple of. -/
def leastExponent : Int := -1074

/-- The whole number that starts a new binade. -/
def binadeStart : Nat := 1 <<< 52

/-- The parts of a double, read off its 64 bits. -/
def parts (x : Float) : Parts :=
  let bits := x.toBits.toNat
  let negative := bits.testBit 63
  let biased := (bits >>> 52) % 2048
  let fraction := bits % binadeStart
  if biased = 2047 then
    if fraction = 0 then .infinite negative else .nan
  else if biased = 0 then .finite negative fraction leastExponent
  else .finite negative (binadeStart + fraction) (leastExponent + (biased - 1 : Nat))

/-- `num / den` rounded to the nearest whole number, a half to the even one. -/
def roundQuotient (num den : Nat) : Nat :=
  let q := num / den
  let twice := 2 * (num % den)
  if twice < den then q
  else if den < twice then q + 1
  else if q % 2 = 0 then q else q + 1

/-- The bits of an infinity, which come behind those of the greatest finite double. -/
def infinityBits : Nat := 2047 <<< 52

/-- The double `q * 2 ^ unit`, for a whole number below `2 ^ 53` or equal to it, which starts
    a binade unless the unit is the least one. The leading bit of the whole number adds one
    to the exponent, and a carry into a further bit one more. -/
def assemble (q : Nat) (unit : Int) : Float :=
  Float.ofBits (UInt64.ofNat (min (((unit - leastExponent).toNat <<< 52) + q) infinityBits))

/-- The double nearest to `m * 2 ^ e`. The unit in the last place is chosen
    first, then the number is rounded to a multiple of it, so the one rounding is
    exact also among the subnormal numbers. -/
def nearest (m : Nat) (e : Int) : Float :=
  if m = 0 then 0
  else
    let unit := max (e + (m.log2 + 1 : Nat) - 53) leastExponent
    let q :=
      if unit ≤ e then m <<< (e - unit).toNat
      else roundQuotient m (1 <<< (unit - e).toNat)
    assemble q unit

end Double

end QubitLab
