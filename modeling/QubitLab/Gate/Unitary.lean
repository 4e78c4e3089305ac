import QubitLab.Matrix

/-!
# Gate matrices

The matrices of the built-in gates. A rotation by an angle has half the angle in
its entries, so a full turn is minus the identity.

The entries are computed from the scalar operations as the formulas say, so over
doubles each entry is rounded in a fixed way.

## Main definitions

* `Unitary.identity`, `Unitary.pauliX`, …: Matrices without a parameter.
* `Unitary.rotationX`, …: Matrices of an angle.
* `Unitary.general`: The rotation that all others are cases of.
* `Unitary.lowering`: The lowering operator, which is not unitary.
* `Unitary.iswap`, `Unitary.sqrtIswap`: The two-qubit matrices that are neither
  controlled nor an exchange.
-/

namespace QubitLab

namespace Unitary

variable {R : Type} [Scalar R]

/-- The identity. -/
def identity : Matrix2 (Complex R) := ⟨1, 0, 0, 1⟩

/-- Pauli X. -/
def pauliX : Matrix2 (Complex R) := ⟨0, 1, 1, 0⟩

/-- Pauli Y. -/
def pauliY : Matrix2 (Complex R) := ⟨0, -Complex.i, Complex.i, 0⟩

/-- Pauli Z. -/
def pauliZ : Matrix2 (Complex R) := ⟨1, 0, 0, -1⟩

/-- The square root of one half. -/
def sqrtHalf : R := Scalar.sqrt Scalar.half

/-- Hadamard. -/
def hadamard : Matrix2 (Complex R) :=
  let a := Complex.ofReal sqrtHalf
  ⟨a, a, a, -a⟩

/-- The phase shift by an angle. -/
def phase (angle : R) : Matrix2 (Complex R) := ⟨1, 0, 0, Complex.polar 1 angle⟩

/-- The square root of Pauli Z. -/
def s : Matrix2 (Complex R) := ⟨1, 0, 0, Complex.i⟩

/-- The inverse of `s`. -/
def sInverse : Matrix2 (Complex R) := ⟨1, 0, 0, -Complex.i⟩

/-- An eighth of a full turn. -/
def eighthTurn : R := Scalar.pi / Scalar.ofNat 4

/-- The square root of `s`. -/
def t : Matrix2 (Complex R) := phase eighthTurn

/-- The inverse of `t`. -/
def tInverse : Matrix2 (Complex R) := phase (-eighthTurn)

/-- The square root of Pauli X. -/
def sqrtX : Matrix2 (Complex R) :=
  let a : R := Scalar.half
  ⟨⟨a, a⟩, ⟨a, -a⟩, ⟨a, -a⟩, ⟨a, a⟩⟩

/-- The inverse of `sqrtX`. -/
def sqrtXInverse : Matrix2 (Complex R) :=
  let a : R := Scalar.half
  ⟨⟨a, -a⟩, ⟨a, a⟩, ⟨a, a⟩, ⟨a, -a⟩⟩

/-- The lowering operator, which takes the excited state to the ground state. -/
def lowering : Matrix2 (Complex R) := ⟨0, 1, 0, 0⟩

/-- The rotation about the X axis. -/
def rotationX (angle : R) : Matrix2 (Complex R) :=
  let sin := Scalar.sin (angle / Scalar.ofNat 2)
  let cos := Scalar.cos (angle / Scalar.ofNat 2)
  ⟨⟨cos, 0⟩, ⟨0, -sin⟩, ⟨0, -sin⟩, ⟨cos, 0⟩⟩

/-- The rotation about the Y axis. -/
def rotationY (angle : R) : Matrix2 (Complex R) :=
  let sin := Scalar.sin (angle / Scalar.ofNat 2)
  let cos := Scalar.cos (angle / Scalar.ofNat 2)
  ⟨⟨cos, 0⟩, ⟨-sin, 0⟩, ⟨sin, 0⟩, ⟨cos, 0⟩⟩

/-- The rotation about the Z axis. -/
def rotationZ (angle : R) : Matrix2 (Complex R) :=
  ⟨Complex.polar 1 (-angle / Scalar.ofNat 2), 0, 0,
    Complex.polar 1 (angle / Scalar.ofNat 2)⟩

/-- The rotation by an angle with a phase before and a phase after it. -/
def general (angle after before : R) : Matrix2 (Complex R) :=
  let sin := Scalar.sin (angle / Scalar.ofNat 2)
  let cos := Scalar.cos (angle / Scalar.ofNat 2)
  ⟨⟨cos, 0⟩, -Complex.polar sin before, Complex.polar sin after,
    Complex.polar cos (after + before)⟩

/-- The general rotation by a quarter turn. -/
def quarter (after before : R) : Matrix2 (Complex R) :=
  general (Scalar.pi / Scalar.ofNat 2) after before

/-- The exchange of two qubits with a phase on the exchanged states. -/
def iswap : Rows (Complex R) :=
  [[1, 0, 0, 0], [0, 0, Complex.i, 0], [0, Complex.i, 0, 0], [0, 0, 0, 1]]

/-- The square root of `iswap`. -/
def sqrtIswap : Rows (Complex R) :=
  let a : Complex R := ⟨sqrtHalf, 0⟩
  let b : Complex R := ⟨0, sqrtHalf⟩
  [[1, 0, 0, 0], [0, a, b, 0], [0, b, a, 0], [0, 0, 0, 1]]

end Unitary

end QubitLab
