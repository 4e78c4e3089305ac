import QubitLab.Json.Value

/-!
# Writing JSON

Two layouts of JSON text. The compact one has no white space at all. The spread
one has each item of an array and each member of an object on a line of its own,
indented by two spaces a level; an empty array or object stays on one line.

A string escapes the quote, the backslash and the control characters, and leaves
every other character as it is.

Like the reader, the writer works on lists of characters, so that each part of a
text is put in front of what comes behind it.

## Main definitions

* `Json.Number.text`: The text of a number.
* `Json.quoted`: The characters of a string.
* `Json.compact`: The compact text of a value.
* `Json.spread`: The text of a value over several lines.
-/

namespace QubitLab

namespace Json

/-- A decimal digit as a character. -/
def digitChar (d : Fin 10) : Char := Char.ofNat ('0'.toNat + d)

/-- The text of a number. An exponent carries its sign also when it is not
    negative. -/
def Number.text (n : Number) : String :=
  let sign := if n.negative then "-" else ""
  let fraction :=
    if n.fraction.isEmpty then "" else "." ++ String.ofList (n.fraction.map digitChar)
  let exponent :=
    match n.exponent with
    | none => ""
    | some e => if 0 ≤ e then "e+" ++ toString e.toNat else "e-" ++ toString (-e).toNat
  sign ++ toString n.whole ++ fraction ++ exponent

/-- A hexadecimal digit as a character, in lower case. -/
def hexChar (n : Nat) : Char :=
  if n < 10 then Char.ofNat ('0'.toNat + n) else Char.ofNat ('a'.toNat + n - 10)

/-- A character as it is written inside a string. -/
def escaped (c : Char) : List Char :=
  match c with
  | '"' => ['\\', '"']
  | '\\' => ['\\', '\\']
  | '\n' => ['\\', 'n']
  | '\r' => ['\\', 'r']
  | '\t' => ['\\', 't']
  | c =>
    if c.toNat = 0x08 then ['\\', 'b']
    else if c.toNat = 0x0C then ['\\', 'f']
    else if c.toNat < 0x20 then
      ['\\', 'u', '0', '0', hexChar (c.toNat / 16), hexChar (c.toNat % 16)]
    else [c]

/-- A string between quotes. -/
def quoted (s : String) : List Char := '"' :: s.toList.flatMap escaped ++ ['"']

/-- A string between quotes; one that stands for no text is written as an empty
    string. -/
def quotedContent (content : Option String) : List Char := quoted (content.getD "")

/-- A truth value. -/
def truthChars (b : Bool) : List Char := if b then "true".toList else "false".toList

mutual

/-- A value in the compact layout. -/
def compactChars : Json → List Char
  | .null => "null".toList
  | .bool b => truthChars b
  | .number n => n.text.toList
  | .string content => quotedContent content
  | .array items => '[' :: compactItems items ++ [']']
  | .object members => '{' :: compactMembers members ++ ['}']

/-- Items with commas between them. -/
def compactItems : List Json → List Char
  | [] => []
  | [item] => compactChars item
  | item :: next :: rest => compactChars item ++ ',' :: compactItems (next :: rest)

/-- Members with commas between them. -/
def compactMembers : List (Option String × Json) → List Char
  | [] => []
  | [(key, value)] => quotedContent key ++ ':' :: compactChars value
  | (key, value) :: next :: rest =>
    quotedContent key ++ ':' :: (compactChars value ++ ',' :: compactMembers (next :: rest))

end

/-- The compact text of a value. -/
def compact (j : Json) : String := String.ofList (compactChars j)

/-- The start of a line at the given level. -/
def lineStart (level : Nat) : List Char := '\n' :: List.replicate (2 * level) ' '

mutual

/-- A value over several lines, at the given level. -/
def spreadChars (level : Nat) : Json → List Char
  | .null => "null".toList
  | .bool b => truthChars b
  | .number n => n.text.toList
  | .string content => quotedContent content
  | .array [] => ['[', ']']
  | .array (item :: items) =>
    '[' :: spreadItems (level + 1) (item :: items) ++ lineStart level ++ [']']
  | .object [] => ['{', '}']
  | .object (member :: members) =>
    '{' :: spreadMembers (level + 1) (member :: members) ++ lineStart level ++ ['}']

/-- Items on lines of their own. -/
def spreadItems (level : Nat) : List Json → List Char
  | [] => []
  | [item] => lineStart level ++ spreadChars level item
  | item :: next :: rest =>
    lineStart level ++ spreadChars level item ++ ',' :: spreadItems level (next :: rest)

/-- Members on lines of their own. -/
def spreadMembers (level : Nat) : List (Option String × Json) → List Char
  | [] => []
  | [(key, value)] =>
    lineStart level ++ quotedContent key ++ ':' :: ' ' :: spreadChars level value
  | (key, value) :: next :: rest =>
    lineStart level ++ quotedContent key ++ ':' :: ' ' ::
      (spreadChars level value ++ ',' :: spreadMembers level (next :: rest))

end

/-- The text of a value over several lines. -/
def spread (j : Json) : String := String.ofList (spreadChars 0 j)

end Json

end QubitLab
