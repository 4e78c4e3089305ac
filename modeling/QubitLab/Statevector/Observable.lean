import QubitLab.Statevector.Simulator

/-!
# Asking a state

What can be asked of a state without changing it: the probabilities of the basis
states, the expectation of an observable, and the density matrix.

## Main definitions

* `Simulator.probabilityOfBits`, `Simulator.probabilityOfIndex`,
  `Simulator.probabilities`: The probabilities.
* `Simulator.expectation`: The expectation of an observable.
* `Simulator.densityMatrix`: The outer product of the state with itself.
-/

namespace QubitLab

namespace Simulator

variable {R G : Type} [Scalar R]

/-- The probability of the basis state in which qubit `k` has bit `k`. -/
def probabilityOfBits (s : Simulator R G) (bits : List Bool) : Except (Error R) R :=
  if bits.length ≠ s.numQubits then
    .error (.invalidArgument (.wrongBitCount s.numQubits bits.length))
  else .ok (s.buffer.amplitude (Statevector.basisIndex bits)).normSq

/-- The probability of a basis state by its index. -/
def probabilityOfIndex (s : Simulator R G) (index : Nat) : Except (Error R) R :=
  match s.buffer[index]? with
  | some a => .ok a.normSq
  | none => .error (.invalidArgument (.basisIndex index s.buffer.size))

/-- The probability of every basis state, by index. -/
def probabilities (s : Simulator R G) : List R := s.buffer.toList.map Complex.normSq

/-- The contribution of each row of an observable to its expectation, added to what
    is there already. -/
def expectationFrom (state : List (Complex R)) (total : Complex R) :
    List (List (Complex R) × Complex R) → Except (Error R) (Complex R)
  | [] => .ok total
  | (row, amplitude) :: rest =>
    if row.length ≠ state.length then .error (.dimensionMismatch state.length row.length)
    else expectationFrom state (total + amplitude.conj * Rows.dot row state) rest

/-- The expectation of an observable, as the real part of the sum. -/
def expectation (s : Simulator R G) (observable : Rows (Complex R)) :
    Except (Error R) R :=
  let state := s.buffer.toList
  if observable.length ≠ state.length then
    .error (.dimensionMismatch state.length observable.length)
  else (expectationFrom state 0 (observable.zip state)).map Complex.re

/-- The outer product of the state with itself. -/
def densityMatrix (s : Simulator R G) : Except (Error R) (Rows (Complex R)) :=
  let state := s.buffer.toList
  let side := state.length
  if Statevector.addressableBytes < side * side * Statevector.amplitudeBytes then
    .error (.invalidArgument (.densityTooLarge side))
  else .ok (state.map fun a => state.map fun b => a * b.conj)

end Simulator

end QubitLab
