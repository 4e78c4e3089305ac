import QubitLab.Decimal.Shortest

/-!
# Texts of doubles

How the digits of a number are laid out as text. A layout says which numbers are
written positionally and which in scientific form, and whether a whole number
keeps a point. Fixed texts have a given number of places instead.

## Main definitions

* `Decimal.positional`: Digits with a decimal point among them.
* `Decimal.scientific`: One digit, the others behind a point, and the exponent.
* `Decimal.Layout`: The choices of a format.
* `Layout.plain`, `Layout.exponential`, `Layout.guarded`: The formats in use.
* `Layout.text`: The text of a double in a format.
* `Decimal.fixedText`: The text with a given number of places.
* `Decimal.roundedScientific`: Scientific form with a given number of digits.
-/

namespace QubitLab

namespace Decimal

/-- A run of `n` zeros. -/
def zeros (n : Nat) : List Char := List.replicate n '0'

/-- The digits before the decimal point, at least one. -/
def wholePart (d : Decimal) : List Char :=
  if d.leadingPlace < 0 then ['0']
  else if 0 ≤ d.exponent then d.digits ++ zeros d.exponent.toNat
  else d.digits.take (d.leadingPlace.toNat + 1)

/-- The digits behind the decimal point, possibly none. -/
def fractionPart (d : Decimal) : List Char :=
  if d.leadingPlace < 0 then zeros ((-d.leadingPlace).toNat - 1) ++ d.digits
  else if 0 ≤ d.exponent then []
  else d.digits.drop (d.leadingPlace.toNat + 1)

/-- Positional form. A whole number has a point and a zero behind it when
    `keepPoint` holds, and no point otherwise. -/
def positional (d : Decimal) (keepPoint : Bool) : String :=
  let whole := String.ofList d.wholePart
  match d.fractionPart with
  | [] => if keepPoint then whole ++ ".0" else whole
  | fraction => whole ++ "." ++ String.ofList fraction

/-- Scientific form: the first digit, the others behind a point, and the exponent,
    whose sign is written only when it is negative. -/
def scientific (d : Decimal) : String :=
  let mantissa :=
    match d.digits with
    | [] => "0"
    | [c] => String.singleton c
    | c :: rest => String.singleton c ++ "." ++ String.ofList rest
  mantissa ++ "e" ++ toString d.leadingPlace

/-- The choices of a text format. -/
structure Layout where
  /-- Whether a number with this leading place is written positionally. -/
  isPositional : Int → Bool
  /-- Whether a whole number keeps a point and a zero. -/
  keepPoint : Bool

namespace Layout

/-- Always positional, and a whole number has no point. -/
def plain : Layout := ⟨fun _ => true, false⟩

/-- Always scientific. -/
def exponential : Layout := ⟨fun _ => false, false⟩

/-- Positional from a ten-thousandth to below ten to the sixteenth, with a point
    in every number, and scientific outside. -/
def guarded : Layout := ⟨fun place => -4 ≤ place && place < 16, true⟩

/-- The text of a decimal without its sign. -/
def unsigned (l : Layout) (d : Decimal) : String :=
  if l.isPositional d.leadingPlace then d.positional l.keepPoint else d.scientific

/-- The text of a double: the shortest digits that read back, with a minus sign
    also before a negative zero. -/
def text (l : Layout) (x : Float) : String :=
  match Double.parts x with
  | .nan => "NaN"
  | .infinite negative => if negative then "-inf" else "inf"
  | .finite negative m e =>
    (if negative then "-" else "") ++ l.unsigned (shortest .up m e)

end Layout

/-- A count of units in the last of `places` places, with the point in front of
    those places. -/
def withPlaces (n places : Nat) : String :=
  let digits := Nat.toDigits 10 n
  let padded := zeros (places + 1 - digits.length) ++ digits
  let whole := String.ofList (padded.take (padded.length - places))
  if places = 0 then whole
  else whole ++ "." ++ String.ofList (padded.drop (padded.length - places))

/-- The text of a double with `places` places, rounded from its exact value, with
    a minus sign also where the places are all zero. -/
def fixedText (places : Nat) (x : Float) : String :=
  match Double.parts x with
  | .nan => "NaN"
  | .infinite negative => if negative then "-inf" else "inf"
  | .finite negative m e =>
    (if negative then "-" else "") ++
      withPlaces ((Quantity.ofBinary m e).roundTo (-(places : Int))) places

/-- The text of a decimal in scientific form with the mantissa filled up to
    `count` digits. -/
def paddedScientific (d : Decimal) (count : Nat) : String :=
  let digits := d.digits ++ zeros (count - d.digits.length)
  String.ofList (digits.take 1) ++ "." ++ String.ofList (digits.drop 1) ++ "e" ++
    toString d.leadingPlace

/-- The text of a double in scientific form with `count` significant digits,
    rounded from its exact value. A carry into a new place drops the zero that it
    leaves behind. -/
def roundedScientific (count : Nat) (x : Float) : String :=
  match Double.parts x with
  | .nan => "NaN"
  | .infinite negative => if negative then "-inf" else "inf"
  | .finite negative m e =>
    let d : Decimal :=
      if m = 0 then zero
      else
        let v := Quantity.ofBinary m e
        let place := v.magnitude - (count - 1 : Nat)
        let n := v.roundTo place
        if n = Nat.pow 10 count then ⟨n / 10, place + 1⟩ else ⟨n, place⟩
    (if negative then "-" else "") ++ d.paddedScientific count

end Decimal

end QubitLab
