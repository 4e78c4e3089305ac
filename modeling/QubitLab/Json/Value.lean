/-!
# JSON values

The tree that a JSON text stands for. A number keeps the digits it was written
with, so that a whole number can be told from a decimal and no digit is lost
before the reader of the number decides what it needs. A string literal may
contain an escape for one half of a surrogate pair: it is well formed JSON, but
stands for no text, and its content is `none`.

## Main definitions

* `Json.Number`: A number literal.
* `Json`: A JSON value.
* `Json.wordLimit`: The bound on whole numbers.
* `Json.ofNat`, `Json.text`: The values of numbers and texts.
-/

namespace QubitLab

/-- A number literal: a sign, the digits before the point as a whole number, the
    digits behind the point, and the exponent if one is written. -/
structure Json.Number where
  /-- A minus sign is written. -/
  negative : Bool
  /-- The digits before the point. -/
  whole : Nat
  /-- The digits behind the point; none when there is no point. -/
  fraction : List (Fin 10)
  /-- The exponent, when one is written. -/
  exponent : Option Int
deriving DecidableEq, Repr

/-- A JSON value. -/
inductive Json where
  /-- The value `null`. -/
  | null
  /-- A truth value. -/
  | bool (b : Bool)
  /-- A number, as written. -/
  | number (n : Json.Number)
  /-- A string, or `none` for a literal that stands for no text. -/
  | string (content : Option String)
  /-- An array. -/
  | array (items : List Json)
  /-- An object, with its members in the order in which they are written. -/
  | object (members : List (Option String × Json))
deriving Inhabited

namespace Json

/-- Whole numbers are below this bound: each fits in a word of 64 bits. -/
def wordLimit : Nat := 1 <<< 64

/-- The whole number `n`. -/
def ofNat (n : Nat) : Json := .number ⟨false, n, [], none⟩

/-- The string that stands for the text `s`. -/
def text (s : String) : Json := .string (some s)

/-- The object with the given members. -/
def record (members : List (String × Json)) : Json :=
  .object (members.map fun m => (some m.1, m.2))

end Json

end QubitLab
