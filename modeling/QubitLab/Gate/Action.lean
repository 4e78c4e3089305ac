import QubitLab.Gate.Basic
import QubitLab.Gate.Unitary

/-!
# What a gate does to amplitudes

Every gate is applied in one of three ways: a two by two matrix on one qubit,
possibly under controls; an exchange of two qubits, possibly under controls; or a
matrix over all of its qubits. This module says which, for each kind.

## Main definitions

* `Gate.targetMatrix?`: The two by two matrix on the target.
* `Gate.denseMatrix?`: The matrix over all qubits.
* `GateAction`: The three ways.
* `Gate.action`: The way of a gate, or why there is none.
-/

namespace QubitLab

/-- A way to change the amplitudes of a register, over the amplitudes `K`. -/
inductive GateAction (K : Type) where
  /-- A two by two matrix on the target, where all controls are set. -/
  | matrix (controls : List Nat) (target : Nat) (m : Matrix2 K)
  /-- The exchange of two qubits, where all controls are set. -/
  | swap (controls : List Nat) (a b : Nat)
  /-- A matrix over the given qubits, the first being the least significant. -/
  | dense (qubits : List Nat) (m : Rows K)

namespace Gate

variable {R : Type} [Scalar R]

/-- An angle of the gate; one that is missing counts as zero. -/
def param (g : Gate R) (k : Nat) : R := g.params.getD k 0

/-- The two by two matrix that is applied to the target qubit, where all controls
    are set. The exchanges, the two-qubit matrices and the custom gates have
    none. -/
def targetMatrix? (g : Gate R) : Option (Matrix2 (Complex R)) :=
  match g.kind with
  | .h => some Unitary.hadamard
  | .x | .cx | .ccx => some Unitary.pauliX
  | .y | .cy => some Unitary.pauliY
  | .z | .cz | .ccz => some Unitary.pauliZ
  | .s => some Unitary.s
  | .sdg => some Unitary.sInverse
  | .t => some Unitary.t
  | .tdg => some Unitary.tInverse
  | .sx => some Unitary.sqrtX
  | .sxdg => some Unitary.sqrtXInverse
  | .id => some Unitary.identity
  | .rx | .crx => some (Unitary.rotationX (g.param 0))
  | .ry | .cry => some (Unitary.rotationY (g.param 0))
  | .rz | .crz => some (Unitary.rotationZ (g.param 0))
  | .p | .u1 | .cp | .cu1 => some (Unitary.phase (g.param 0))
  | .u2 => some (Unitary.quarter (g.param 0) (g.param 1))
  | .u3 => some (Unitary.general (g.param 0) (g.param 1) (g.param 2))
  | .swap | .cswap | .iswap | .sqiswap | .custom => none

/-- The matrix over all qubits of the gate, for the gates that are given by one. -/
def denseMatrix? (g : Gate R) : Option (Rows (Complex R)) :=
  match g.kind with
  | .iswap => some Unitary.iswap
  | .sqiswap => some Unitary.sqrtIswap
  | .custom => g.payload.map CustomMatrix.matrix
  | _ => none

/-- The check of a matrix that is about to be applied to that many qubits. -/
def checkDense (m : Rows (Complex R)) (width : Nat) : Except (Error R) Unit := do
  checkSide m (1 <<< width)
  if m.isUnitary Scalar.unitaryTolerance then return ()
  else .error (.invalidArgument (.notUnitary (1 <<< width)))

/-- The check of a gate that is about to be applied to a register: its qubits are
    inside, there are as many as its kind asks for, and none occurs twice. -/
def checkShape (g : Gate R) (numQubits : Nat) : Except (Error R) Unit := do
  checkRange numQubits g.qubits
  match g.kind.arity? with
  | some arity => checkArity g.name arity g.qubits
  | none => pure ()
  checkDistinct g.name g.qubits

/-- The way in which a gate changes the amplitudes. -/
def action (g : Gate R) : Except (Error R) (GateAction (Complex R)) :=
  let controls := g.qubits.take g.kind.controlCount
  match g.kind.isSwapFamily, g.qubits.drop g.kind.controlCount with
  | true, a :: b :: _ => .ok (.swap controls a b)
  | _, targets =>
    match g.targetMatrix?, targets with
    | some m, target :: _ => .ok (.matrix controls target m)
    | _, _ =>
      match g.denseMatrix? with
      | some m => do
        checkDense m g.width
        return .dense g.qubits m
      | none => .error (.unsupported (.noMatrix g.name))

end Gate

end QubitLab
