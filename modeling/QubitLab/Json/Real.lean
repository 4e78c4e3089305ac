import QubitLab.Decimal.Layout
import QubitLab.Decimal.Scaling
import QubitLab.Json.Value

/-!
# Real numbers in text

The formats that read and write scalars are written for any scalars that have a
text form; this module has the interface and its instance for double precision
numbers.

A double is written to JSON with the shortest digits that read back, of two
equally near ones with an even last digit. It is written positionally from a
hundred-thousandth to below ten to the sixteenth, always with a point, and in
scientific form outside. An infinity has no number literal.

A literal is read by its leading digits, as many as fit in a 64-bit word, which are
then scaled by one power of ten. The digits and the power are each rounded once,
and so is the scaling. A literal that lies beyond the greatest finite double is out
of range, and one that is scaled down to zero keeps its sign.

## Main definitions

* `RealText`: Scalars with a text form.
* `Json.numberOf`: The number literal of a double.
* `Json.leadingDigits`: The digits of a literal that fit in a word.
* `Json.Number.double?`: The double that a literal stands for.
* `Json.ofReal`: The JSON value of a scalar.
* `Json.real?`: The scalar that a JSON value stands for.
-/

namespace QubitLab

/-- Scalars with a text form. -/
class RealText (R : Type) where
  /-- The text in a program: positional, with the fewest digits. -/
  plain : R → String
  /-- The number literal, for scalars that have one. -/
  literal? : R → Option Json.Number
  /-- The scalar that a number literal stands for, if it is in range. -/
  ofLiteral? : Json.Number → Option R

namespace Json

/-- The value of a digit character, and zero for any other character. -/
def digitOf (c : Char) : Fin 10 := Fin.ofNat 10 (c.toNat - '0'.toNat)

/-- The number literal of a decimal: positional from a hundred-thousandth to below
    ten to the sixteenth, always with a point, and scientific outside. -/
def Number.ofDecimal (negative : Bool) (d : Decimal) : Number :=
  let place := d.leadingPlace
  if -5 ≤ place ∧ place < 16 then
    let fraction := match d.fractionPart with
      | [] => ['0']
      | cs => cs
    ⟨negative, d.wholePart.foldl (fun n c => 10 * n + (digitOf c : Nat)) 0,
      fraction.map digitOf, none⟩
  else
    match d.digits with
    | [] => ⟨negative, 0, [], none⟩
    | c :: rest => ⟨negative, digitOf c, rest.map digitOf, some place⟩

/-- The number literal of a double; an infinity and what is no number have none. -/
def numberOf (x : Float) : Option Number :=
  match Double.parts x with
  | .finite negative m e => some (.ofDecimal negative (Decimal.shortest .toEven m e))
  | _ => none

/-- A whole number continued by digits for as long as it stays in range, and the
    number of digits that are left out. -/
def leadingDigits : Nat → List (Fin 10) → Nat × Nat
  | n, [] => (n, 0)
  | n, d :: rest =>
    if 10 * n + d < wordLimit then leadingDigits (10 * n + d) rest
    else (n, rest.length + 1)

/-- The double that a literal stands for; none when it is out of range. The digits
    left out before the point raise the exponent, and those taken from behind the
    point lower it. -/
def Number.double? (n : Number) : Option Float :=
  let whole := (Nat.toDigits 10 n.whole).map digitOf
  let (start, leftBefore) := leadingDigits 0 whole
  let (word, leftBehind) := leadingDigits start n.fraction
  let behind := n.fraction.length - leftBehind
  let exponent := n.exponent.getD 0 + leftBefore - behind
  (Double.scaleWord? word exponent).map fun x => if n.negative then -x else x

variable {R : Type} [RealText R]

/-- The JSON value of a scalar; one without a literal is written as `null`. -/
def ofReal (x : R) : Json :=
  match RealText.literal? x with
  | some n => .number n
  | none => .null

/-- The scalar that a JSON value stands for. -/
def real? : Json → Option R
  | .number n => RealText.ofLiteral? n
  | _ => none

end Json

instance : RealText Float where
  plain := Decimal.Layout.plain.text
  literal? := Json.numberOf
  ofLiteral? := Json.Number.double?

end QubitLab
