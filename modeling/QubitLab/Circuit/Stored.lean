import QubitLab.Circuit.Basic
import QubitLab.Gate.Stored
import QubitLab.Json.Reader

/-!
# Circuits in stored data

The JSON form of a circuit. The measurements and the name may be missing. Reading
does not check the rules that the edits keep: that is for `Circuit.validate`.

## Main definitions

* `Circuit.toJson`, `Circuit.ofJson?`: A circuit.
* `Json.decode`: The value of a JSON text, by the reader of its type.
-/

namespace QubitLab

/-- The value of a JSON text, by the reader of its type. -/
def Json.decode {R α : Type} (value? : Json → Option α) (text : String) :
    Except (Error R) α :=
  match Json.read text with
  | none => .error (.invalidJson .malformed)
  | some j =>
    match value? j with
    | some a => .ok a
    | none => .error (.invalidJson .unexpectedShape)

namespace Circuit

variable {R : Type} [RealText R]

/-- The JSON form of a pair of numbers. -/
def pairToJson (p : Nat × Nat) : Json := .array [Json.ofNat p.1, Json.ofNat p.2]

/-- The JSON form of a circuit. -/
def toJson (c : Circuit R) : Json :=
  Json.record
    [("num_qubits", Json.ofNat c.numQubits), ("num_clbits", Json.ofNat c.numClbits),
      ("gates", .array (c.gates.map Gate.toJson)),
      ("measurements", .array (c.measurements.map pairToJson)),
      ("name", match c.name with
        | some name => Json.text name
        | none => .null)]

/-- The circuit of a JSON value. -/
def ofJson? (j : Json) : Option (Circuit R) := do
  match ← Json.fields? ["num_qubits", "num_clbits", "gates", "measurements", "name"] j with
  | [numQubits, numClbits, gates, measurements, name] =>
    let numQubits ← Json.required? Json.natural? numQubits
    let numClbits ← Json.required? Json.natural? numClbits
    let gates ← Json.required? (Json.list? Gate.ofJson?) gates
    let measurement? := Json.pair? Json.natural? Json.natural?
    let measurements ← Json.withDefault? (Json.list? measurement?) [] measurements
    let name ← Json.withDefault? (Json.optional? Json.text?) none name
    return ⟨numQubits, numClbits, gates, measurements, name⟩
  | _ => none

end Circuit

end QubitLab
