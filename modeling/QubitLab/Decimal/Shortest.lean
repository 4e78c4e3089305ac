import QubitLab.Decimal.Basic

/-!
# The shortest decimal of a double

Among the decimals that read back to a given double, the shortest ones are those
with the fewest digits, and of these the one nearest to the double is taken. Two
shortest decimals can be equally near; which of them is taken is a choice that is
left to the format.

The reals that read back to a double form an interval around it. Its ends are
half way to the neighbouring doubles, and belong to it exactly when the double's
significand is even. On the grid of decimals with a given number of digits only
the two neighbours of the double need a look: if any point of the grid lies in
the interval, one of the neighbours does.

## Main definitions

* `Span`: The reals that read back to a double.
* `Decimal.Tie`: Which of two equally near decimals is taken.
* `Span.atDigits`: The nearest decimal with a given number of digits, if it reads
  back.
* `Span.shortest`: The shortest decimal.
-/

namespace QubitLab

namespace Decimal

/-- Which of two equally near decimals is taken. -/
inductive Tie where
  /-- The one whose last digit is even. -/
  | toEven
  /-- The greater one. -/
  | up
deriving Repr, DecidableEq

end Decimal

/-- The reals that read back to a positive double, over a common denominator. -/
structure Span where
  /-- The lower end. -/
  low : Nat
  /-- The double itself. -/
  value : Nat
  /-- The upper end. -/
  high : Nat
  /-- The denominator of the other three. -/
  den : Nat
  /-- The ends belong to the interval. -/
  closed : Bool
deriving Repr, DecidableEq

namespace Span

/-- The span of the double `m * 2 ^ e`. At the start of a binade the double below
    is only half as far away, unless that binade is the lowest one. -/
def ofBinary (m : Nat) (e : Int) : Span :=
  let below := if m = Double.binadeStart ∧ Double.leastExponent < e then 1 else 2
  let scale := Quantity.ofBinary 1 (e - 2)
  { low := (4 * m - below) * scale.num
    value := 4 * m * scale.num
    high := (4 * m + 2) * scale.num
    den := scale.den
    closed := m % 2 = 0 }

/-- True when `n` units of `10 ^ place` lie in the span. -/
def holds (s : Span) (n : Nat) (place : Int) : Bool :=
  let low := (Quantity.mk s.low s.den).onGrid place
  let high := (Quantity.mk s.high s.den).onGrid place
  if s.closed then low.num ≤ n * low.den && n * high.den ≤ high.num
  else low.num < n * low.den && n * high.den < high.num

/-- The nearer of the two neighbours of the double on the grid of decimals with
    `count` digits, among those that read back. The upper neighbour of nines alone
    is a power of ten, which needs one digit only. -/
def atDigits (s : Span) (tie : Decimal.Tie) (count : Nat) : Option Decimal :=
  let v : Quantity := ⟨s.value, s.den⟩
  let place := v.magnitude - (count - 1 : Nat)
  let unit := v.onGrid place
  let below := unit.num / unit.den
  let twice := 2 * (unit.num % unit.den)
  let nearerBelow : Bool :=
    if twice = unit.den then
      match tie with
      | .toEven => below % 2 == 0
      | .up => false
    else decide (twice < unit.den)
  let lower : Decimal := ⟨below, place⟩
  let upper : Decimal :=
    if below + 1 = Nat.pow 10 count then ⟨1, place + count⟩ else ⟨below + 1, place⟩
  match s.holds below place, s.holds (below + 1) place with
  | true, true => some (if nearerBelow then lower else upper)
  | true, false => some lower
  | false, true => some upper
  | false, false => none

/-- The shortest decimal that reads back. Seventeen digits always suffice, so the
    search ends there. -/
def shortest (s : Span) (tie : Decimal.Tie) : Decimal :=
  ((List.range 17).findSome? fun k => s.atDigits tie (k + 1)).getD .zero

end Span

namespace Decimal

/-- The shortest decimal that reads back to the double `m * 2 ^ e`. -/
def shortest (tie : Tie) (m : Nat) (e : Int) : Decimal :=
  if m = 0 then zero else (Span.ofBinary m e).shortest tie

end Decimal

end QubitLab
