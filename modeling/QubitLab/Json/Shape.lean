import QubitLab.Json.Value

/-!
# The shapes that readers expect

A value of the library is read from a JSON value of a known shape. This module
has the shapes: whole numbers in range, truth values, texts, lists, pairs,
optional values, names, and records with known fields.

A record may be written in two ways. As an object, its members may come in any
order, a member with an unknown name is passed over, and no known name may come
twice. As an array, it has the values of the fields in order, of which the last
ones may be missing. Whether a missing field is an error is for the reader of the
field to say.

## Main definitions

* `Json.Number.natural?`: The whole number that a literal stands for.
* `Json.natural?`, `Json.truth?`, `Json.text?`, `Json.list?`, `Json.pair?`: The
  plain shapes.
* `Json.optional?`: A value that may be `null`.
* `Json.name?`: A name out of a fixed list of names.
* `Json.fields?`: The fields of a record.
-/

namespace QubitLab

namespace Json

/-- The whole number that a literal without sign, point and exponent stands for,
    if it is in range. -/
def Number.natural? (n : Number) : Option Nat :=
  match n with
  | ⟨false, whole, [], none⟩ => if whole < wordLimit then some whole else none
  | _ => none

/-- A whole number in range. -/
def natural? : Json → Option Nat
  | .number n => n.natural?
  | _ => none

/-- A truth value. -/
def truth? : Json → Option Bool
  | .bool b => some b
  | _ => none

/-- A text. -/
def text? : Json → Option String
  | .string content => content
  | _ => none

/-- A list, all of whose items are read by `item?`. -/
def list? {α : Type} (item? : Json → Option α) : Json → Option (List α)
  | .array items => items.mapM item?
  | _ => none

/-- An array of exactly two items. -/
def pair? {α β : Type} (first? : Json → Option α) (second? : Json → Option β) :
    Json → Option (α × β)
  | .array [a, b] => do
    let a ← first? a
    let b ← second? b
    return (a, b)
  | _ => none

/-- A value that is absent when it is written as `null`. -/
def optional? {α : Type} (value? : Json → Option α) : Json → Option (Option α)
  | .null => some none
  | j => (value? j).map some

/-- A name: a text, or an object whose only member has the name and the value
    `null`. -/
def name? : Json → Option String
  | .string content => content
  | .object [(key, .null)] => key
  | _ => none

/-- The value of the only member with the name `key`; none when there is no such
    member. -/
def onlyMember? (members : List (String × Json)) (key : String) :
    Option (Option Json) :=
  match members.filter fun m => m.1 == key with
  | [] => some none
  | [m] => some (some m.2)
  | _ => none

/-- The members of an object by name, when every name stands for a text. -/
def namedMembers? (members : List (Option String × Json)) :
    Option (List (String × Json)) :=
  members.mapM fun m => m.1.map fun key => (key, m.2)

/-- The fields of a record, in the order of `names`; a field that is missing is
    `none`. -/
def fields? (names : List String) : Json → Option (List (Option Json))
  | .array items =>
    if names.length < items.length then none
    else
      some (items.map some ++ List.replicate (names.length - items.length) none)
  | .object members => do
    let members ← namedMembers? members
    names.mapM (onlyMember? members)
  | _ => none

/-- A field that has to be present. -/
def required? {α : Type} (value? : Json → Option α) : Option Json → Option α
  | some j => value? j
  | none => none

/-- A field with a default for when it is missing. -/
def withDefault? {α : Type} (value? : Json → Option α) (default : α) :
    Option Json → Option α
  | some j => value? j
  | none => some default

end Json

end QubitLab
