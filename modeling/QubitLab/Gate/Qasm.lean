import QubitLab.Gate.Basic
import QubitLab.Json.Real

/-!
# Gates in a program

A gate as one statement of OpenQASM 2.0: the name, the angles in parentheses if
there are any, and the qubits.
-/

namespace QubitLab

namespace Gate

variable {R : Type} [RealText R]

/-- A qubit in a statement. -/
def qubitText (q : Nat) : String := "q[" ++ toString q ++ "]"

/-- The statement of a gate, without a line end. -/
def qasm (g : Gate R) : String :=
  let qubits := " ".intercalate (g.qubits.map qubitText)
  if g.params.isEmpty then g.name ++ " " ++ qubits ++ ";"
  else
    g.name ++ "(" ++ ",".intercalate (g.params.map RealText.plain) ++ ") " ++ qubits ++ ";"

end Gate

end QubitLab
