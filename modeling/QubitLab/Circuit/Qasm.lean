import QubitLab.Circuit.Basic
import QubitLab.Gate.Qasm

/-!
# Circuits as programs

A circuit as a program in OpenQASM 2.0, and a short summary for people to read.

## Main definitions

* `Circuit.header`: The first lines of a program.
* `Circuit.qasm`: The program.
* `Circuit.summary`: The summary.
-/

namespace QubitLab

namespace Circuit

variable {R : Type}

/-- The first lines of a program: version, gate library, registers, and an empty
    line. -/
def header (c : Circuit R) : List String :=
  ["OPENQASM 2.0;", "include \"qelib1.inc\";", "qreg q[" ++ toString c.numQubits ++ "];",
    "creg c[" ++ toString c.numClbits ++ "];", ""]

/-- The statement of a measurement. -/
def measurementText (m : Nat × Nat) : String :=
  "measure q[" ++ toString m.1 ++ "] -> c[" ++ toString m.2 ++ "];"

/-- A text with a line end. -/
def line (s : String) : String := s ++ "\n"

/-- The program: a line each for the gates, then for the measurements. -/
def qasm [RealText R] (c : Circuit R) : String :=
  let lines := c.header ++ c.gates.map Gate.qasm ++ c.measurements.map measurementText
  String.join (lines.map line)

/-- The widths, the number of gates, the depth, and the number of gates by
    width. -/
def summary (c : Circuit R) : String :=
  String.join <| List.map line
    [s!"Circuit({c.numQubits} qubits, {c.numClbits} clbits, {c.size} gates)",
      s!"  Depth: {c.depth}", "  1Q gates: " ++ toString (c.countWidth 1),
      "  2Q gates: " ++ toString (c.countWidth 2),
      "  3Q gates: " ++ toString (c.countWidth 3)]

end Circuit

end QubitLab
