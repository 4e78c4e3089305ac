import QubitLab.Circuit.Layers
import QubitLab.Transition

/-!
# Circuits

A circuit has a quantum and a classical register of fixed width, a list of gates
in the order in which they act, and a list of measurements, each from a qubit into
a classical bit.

A circuit is changed by edits. An edit either succeeds or reports why not, and
says in any case which circuit it leaves behind. A circuit that comes from
elsewhere may break the rules that the edits keep; `Circuit.validate` checks them.

## Main definitions

* `Circuit`: A circuit.
* `Circuit.Edit`: A change of a circuit.
* `Circuit.empty`, `Circuit.square`, `Circuit.ofGates`: The ways to start.
* `Circuit.addGate`, `Circuit.pushGate`, `Circuit.addCustom`, `Circuit.measure`,
  `Circuit.measureAll`, `Circuit.setGates`, `Circuit.takeGates`, `Circuit.clear`,
  `Circuit.rename`: The edits.
* `Circuit.validate`: The rules that the edits keep.
* `Circuit.depth`, `Circuit.usage`, …: What can be asked of a circuit.
-/

namespace QubitLab

/-- A list of gates and measurements over two registers. -/
structure Circuit (R : Type) where
  /-- The number of qubits. -/
  numQubits : Nat
  /-- The number of classical bits. -/
  numClbits : Nat
  /-- The gates, in the order in which they act. -/
  gates : List (Gate R)
  /-- The measurements: a qubit, and the classical bit that it is read into. -/
  measurements : List (Nat × Nat)
  /-- The name, if the circuit has one. -/
  name : Option String
deriving BEq, DecidableEq, Repr

namespace Circuit

variable {R : Type}

/-- A change of a circuit. Edits write no journal. -/
abbrev Edit (R α : Type) := Transition (Error R) Empty (Circuit R) α

/-- The circuit without gates over registers of the given widths. -/
def empty (numQubits numClbits : Nat) : Circuit R :=
  ⟨numQubits, numClbits, [], [], none⟩

/-- The circuit without gates with one classical bit for each qubit. -/
def square (numQubits : Nat) : Circuit R := empty numQubits numQubits

/-- The circuit with another name. -/
def withName (c : Circuit R) (name : String) : Circuit R := { c with name := some name }

section Questions

/-- The number of gates. -/
def size (c : Circuit R) : Nat := c.gates.length

/-- The number of layers that the gates need. -/
def depth (c : Circuit R) : Nat := Layers.count c.gates c.numQubits

/-- The number of gates on so many qubits. -/
def countWidth (c : Circuit R) (width : Nat) : Nat :=
  c.gates.countP fun g => g.width == width

/-- The number of gates with angles. -/
def countParameterized (c : Circuit R) : Nat := c.gates.countP Gate.isParameterized

/-- The qubits of all gates, as often as they occur. -/
def touched (c : Circuit R) : List Nat := c.gates.flatMap Gate.qubits

/-- The qubits that some gate touches, in ascending order. -/
def usedQubits (c : Circuit R) : List Nat := (c.touched.mergeSort).eraseDups

/-- For each qubit of the register, how often it occurs in a gate. -/
def usage (c : Circuit R) : List Nat :=
  (c.touched.foldl (fun counts q => counts.modify q (· + 1))
    (Array.replicate c.numQubits 0)).toList

end Questions

/-- The check of a measurement: first its qubit, then its classical bit. -/
def checkMeasurement (c : Circuit R) (m : Nat × Nat) : Except (Error R) Unit := do
  Gate.checkRange c.numQubits [m.1]
  if c.numClbits ≤ m.2 then .error (.clbitOutOfRange m.2 c.numClbits) else return ()

/-- The edit that adds a measurement at the end. -/
def measure (qubit clbit : Nat) : Edit R Unit :=
  Transition.attempt fun c => do
    c.checkMeasurement (qubit, clbit)
    return { c with measurements := c.measurements ++ [(qubit, clbit)] }

/-- The edit that measures each qubit into the classical bit of the same number,
    up to the first one that has none. -/
def measureAll : Edit R Unit := fun c =>
  Transition.forEach (fun q => measure q q) (List.range c.numQubits) c

/-- The edit that takes all gates out, and answers with them. -/
def takeGates : Edit R (List (Gate R)) := do
  let gates ← Transition.reading Circuit.gates
  Transition.change fun c => { c with gates := [] }
  return gates

/-- The edit that takes out all gates and measurements. -/
def clear : Edit R Unit :=
  Transition.change fun c => { c with gates := [], measurements := [] }

/-- The edit that gives the circuit a name. -/
def rename (name : String) : Edit R Unit := Transition.change (withName · name)

variable [Scalar R]

/-- The check of a gate: its qubits are inside the register, and it has a shape
    that its kind allows. -/
def checkGate (c : Circuit R) (g : Gate R) : Except (Error R) Unit := do
  Gate.checkRange c.numQubits g.qubits
  g.validate

/-- The edit that adds a gate of a built-in kind at the end. -/
def addGate (kind : GateKind) (qubits : List Nat) (params : List R) : Edit R Unit :=
  Transition.attempt fun c => do
    Gate.checkRange c.numQubits qubits
    let g ← Gate.builtin kind qubits params
    return { c with gates := c.gates ++ [g] }

/-- The edit that adds a gate that is already there at the end. -/
def pushGate (g : Gate R) : Edit R Unit :=
  Transition.attempt fun c => do
    c.checkGate g
    return { c with gates := c.gates ++ [g] }

/-- The edit that adds a custom gate at the end. -/
def addCustom (name : String) (matrix : Rows (Complex R)) (qubits : List Nat) :
    Edit R Unit :=
  Transition.attempt fun c => do
    Gate.checkRange c.numQubits qubits
    let g ← Gate.custom name matrix qubits
    return { c with gates := c.gates ++ [g] }

/-- The edit that puts other gates in the place of the present ones, if each of
    them passes the check. -/
def setGates (gates : List (Gate R)) : Edit R Unit :=
  Transition.attempt fun c => do
    gates.forM c.checkGate
    return { c with gates }

/-- The circuit with the given gates and one classical bit for each qubit. -/
def ofGates (numQubits : Nat) (gates : List (Gate R)) : Except (Error R) (Circuit R) :=
  let outcome := setGates gates (square numQubits)
  outcome.result.map fun _ => outcome.state

/-- The check of all gates, and then of all measurements. -/
def validate (c : Circuit R) : Except (Error R) Unit := do
  c.gates.forM c.checkGate
  c.measurements.forM c.checkMeasurement

end Circuit

end QubitLab
