import QubitLab.Circuit.Basic

/-!
# Relabelling qubits

A circuit means the same when its qubits change places. A mapping lists the new
label of each qubit; it has to be a permutation of the register.

## Main definitions

* `Circuit.checkMapping`: The check that a mapping is a permutation.
* `Circuit.relabel`: The edit that relabels gates and measurements.
-/

namespace QubitLab

namespace Circuit

variable {R : Type}

/-- The check of the targets of a mapping one after the other, given those seen so
    far: each lies inside the register, and none comes twice. -/
def checkTargets (numQubits : Nat) (seen : List Nat) : List Nat → Except (Error R) Unit
  | [] => .ok ()
  | target :: rest =>
    if numQubits ≤ target then .error (.qubitOutOfRange target numQubits)
    else if target ∈ seen then .error (.invalidArgument (.repeatedTarget target))
    else checkTargets numQubits (target :: seen) rest

/-- The check that a mapping is a permutation of a register. -/
def checkMapping (numQubits : Nat) (mapping : List Nat) : Except (Error R) Unit :=
  if mapping.length ≠ numQubits then
    .error (.dimensionMismatch numQubits mapping.length)
  else checkTargets numQubits [] mapping

/-- A measurement of the relabelled qubit into the same classical bit. -/
def relabelMeasurement (numQubits : Nat) (mapping : List Nat) (m : Nat × Nat) :
    Except (Error R) (Nat × Nat) := do
  let q ← Gate.newLabel mapping numQubits m.1
  return (q, m.2)

/-- The edit that relabels every gate and every measurement: qubit `q` becomes
    `mapping[q]`. -/
def relabel (mapping : List Nat) : Edit R Unit :=
  Transition.attempt fun c => do
    checkMapping c.numQubits mapping
    let gates ← c.gates.mapM fun g => g.relabel mapping
    let measurements ← c.measurements.mapM (relabelMeasurement c.numQubits mapping)
    return { c with gates, measurements }

end Circuit

end QubitLab
