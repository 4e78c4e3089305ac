import QubitLab.Gate.Basic
import QubitLab.Json.Real
import QubitLab.Json.Shape

/-!
# Gates in stored data

The JSON form of a gate. The angles may be missing, and so may the custom matrix,
which is written only when there is one. Reading does not check the shape of the
gate: that is for `Gate.validate`.

## Main definitions

* `Json.naturals?`: A list of whole numbers.
* `Complex.toJson`, `Complex.ofJson?`: A complex number, as a pair.
* `Rows.toJson`, `Rows.ofJson?`: A matrix, as a list of rows.
* `Matrix2.toJson`, `Matrix2.ofJson?`: A two by two matrix.
* `GateKind.toJson`, `GateKind.ofJson?`: A kind, by its stored name.
* `CustomMatrix.toJson`, `CustomMatrix.ofJson?`: The matrix of a custom gate.
* `Gate.toJson`, `Gate.ofJson?`: A gate.
-/

namespace QubitLab

/-- A list of whole numbers. -/
def Json.naturals? : Json → Option (List Nat) := Json.list? Json.natural?

section Stored

variable {R : Type} [RealText R]

/-- The JSON form of a complex number: its two parts. -/
def Complex.toJson (z : Complex R) : Json :=
  .array [Json.ofReal z.re, Json.ofReal z.im]

/-- The complex number of a JSON value. -/
def Complex.ofJson? (j : Json) : Option (Complex R) := do
  let (re, im) ← Json.pair? Json.real? Json.real? j
  return ⟨re, im⟩

/-- The JSON form of a matrix: its rows. -/
def Rows.toJson (m : Rows (Complex R)) : Json :=
  .array (m.map fun row => .array (row.map Complex.toJson))

/-- The matrix of a JSON value. -/
def Rows.ofJson? (j : Json) : Option (Rows (Complex R)) :=
  Json.list? (Json.list? Complex.ofJson?) j

/-- The JSON form of a two by two matrix: its rows. -/
def Matrix2.toJson (m : Matrix2 (Complex R)) : Json := Rows.toJson m.toRows

/-- The two by two matrix of a JSON value. -/
def Matrix2.ofJson? (j : Json) : Option (Matrix2 (Complex R)) := do
  let row? := Json.pair? (Complex.ofJson? (R := R)) Complex.ofJson?
  let ((a, b), (c, d)) ← Json.pair? row? row? j
  return ⟨a, b, c, d⟩

/-- The JSON form of a kind. -/
def GateKind.toJson (k : GateKind) : Json := Json.text k.storedName

/-- The kind of a JSON value. -/
def GateKind.ofJson? (j : Json) : Option GateKind := do
  GateKind.ofStoredName? (← Json.name? j)

/-- The JSON form of a custom matrix. -/
def CustomMatrix.toJson (c : CustomMatrix R) : Json :=
  Json.record [("name", Json.text c.name), ("matrix", c.matrix.toJson)]

/-- The custom matrix of a JSON value. -/
def CustomMatrix.ofJson? (j : Json) : Option (CustomMatrix R) := do
  match ← Json.fields? ["name", "matrix"] j with
  | [name, matrix] =>
    let name ← Json.required? Json.text? name
    let matrix ← Json.required? Rows.ofJson? matrix
    return ⟨name, matrix⟩
  | _ => none

/-- The JSON form of a gate. -/
def Gate.toJson (g : Gate R) : Json :=
  let shape :=
    [("kind", g.kind.toJson), ("qubits", .array (g.qubits.map Json.ofNat)),
      ("params", .array (g.params.map Json.ofReal))]
  match g.payload with
  | none => Json.record shape
  | some c => Json.record (shape ++ [("custom", c.toJson)])

/-- The gate of a JSON value. -/
def Gate.ofJson? (j : Json) : Option (Gate R) := do
  match ← Json.fields? ["kind", "qubits", "params", "custom"] j with
  | [kind, qubits, params, payload] =>
    let kind ← Json.required? GateKind.ofJson? kind
    let qubits ← Json.required? Json.naturals? qubits
    let params ← Json.withDefault? (Json.list? Json.real?) [] params
    let payload ← Json.withDefault? (Json.optional? CustomMatrix.ofJson?) none payload
    return ⟨kind, qubits, params, payload⟩
  | _ => none

end Stored

end QubitLab
