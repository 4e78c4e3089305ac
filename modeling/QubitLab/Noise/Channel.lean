import QubitLab.Error
import QubitLab.Gate.Unitary
import QubitLab.Json.Shape
import QubitLab.Probability
import QubitLab.Text.Blank

/-!
# Noise channels

The single-qubit noise channels, and their descriptions as sums of operators. The
operators of a channel at a rate satisfy the completeness relation: the products
of each with its adjoint, the adjoint in front, add up to the identity.

## Main definitions

* `NoiseChannel`: The channels.
* `NoiseChannel.parse?`: The channel of a name.
* `NoiseChannel.krausOperators`: The operators at a rate.
* `Kraus.completenessSum`: The sum that should be the identity.
* `Kraus.isTracePreserving`: Whether it is, up to a tolerance.
-/

namespace QubitLab

/-- A way in which a single qubit loses information. -/
inductive NoiseChannel where
  /-- Each of the three Pauli operators with the same probability. -/
  | depolarizing
  /-- Decay from the excited to the ground state. -/
  | amplitudeDamping
  /-- Loss of phase. -/
  | phaseDamping
  /-- Pauli X. -/
  | bitFlip
  /-- Pauli Z. -/
  | phaseFlip
  /-- Pauli Y. -/
  | bitPhaseFlip
deriving DecidableEq, Repr, Inhabited

namespace NoiseChannel

/-- Every channel. -/
def all : List NoiseChannel :=
  [depolarizing, amplitudeDamping, phaseDamping, bitFlip, phaseFlip, bitPhaseFlip]

/-- The name, in stored data and elsewhere. -/
def name : NoiseChannel → String
  | depolarizing => "depolarizing"
  | amplitudeDamping => "amplitude_damping"
  | phaseDamping => "phase_damping"
  | bitFlip => "bit_flip"
  | phaseFlip => "phase_flip"
  | bitPhaseFlip => "bit_phase_flip"

/-- The channel of an exact name. -/
def ofName? (name : String) : Option NoiseChannel := all.find? fun c => c.name == name

/-- The channel of a name with blanks around it, in letters of either case, and
    with hyphens in the place of underscores. -/
def parse? (text : String) : Option NoiseChannel :=
  ofName? ((Text.lowerAscii (Text.trim text)).map fun c => if c = '-' then '_' else c)

/-- The JSON form. -/
def toJson (c : NoiseChannel) : Json := Json.text c.name

/-- The channel of a JSON value. -/
def ofJson? (j : Json) : Option NoiseChannel := do ofName? (← Json.name? j)

variable {R : Type} [Scalar R]

/-- The identity and one Pauli operator, weighted by the square roots of the
    probabilities. -/
def flipOperators (keep flip : R) (pauli : Matrix2 (Complex R)) :
    List (Matrix2 (Complex R)) :=
  [Unitary.identity.scale keep, pauli.scale flip]

/-- The operators of a channel at a rate that is known to be a probability. -/
def operators (c : NoiseChannel) (rate : R) : List (Matrix2 (Complex R)) :=
  let keep := Scalar.sqrt (1 - rate)
  let flip := Scalar.sqrt rate
  match c with
  | depolarizing =>
    let each := Scalar.sqrt (rate / Scalar.ofNat 3)
    [Unitary.identity.scale keep, Unitary.pauliX.scale each, Unitary.pauliY.scale each,
      Unitary.pauliZ.scale each]
  | amplitudeDamping =>
    [Matrix2.diagonal 1 (Complex.ofReal keep), ⟨0, Complex.ofReal flip, 0, 0⟩]
  | phaseDamping =>
    [Matrix2.diagonal 1 (Complex.ofReal keep), Matrix2.diagonal 0 (Complex.ofReal flip)]
  | bitFlip => flipOperators keep flip Unitary.pauliX
  | phaseFlip => flipOperators keep flip Unitary.pauliZ
  | bitPhaseFlip => flipOperators keep flip Unitary.pauliY

/-- The operators of a channel at a rate. -/
def krausOperators (c : NoiseChannel) (rate : R) :
    Except (Error R) (List (Matrix2 (Complex R))) := do
  let p ← Probability.ofScalar rate
  return c.operators p.value

end NoiseChannel

namespace Kraus

variable {R : Type} [Scalar R]

/-- The sum, over the operators, of the adjoint times the operator. -/
def completenessSum (ops : List (Matrix2 (Complex R))) : Matrix2 (Complex R) :=
  ops.foldl (fun acc k => acc.add (k.dagger.mul k)) Matrix2.zero

/-- True when the operators satisfy the completeness relation up to a
    tolerance. -/
def isTracePreserving (ops : List (Matrix2 (Complex R))) (tolerance : R) : Bool :=
  Scalar.le ((completenessSum ops).maxDiff Unitary.identity) tolerance

end Kraus

end QubitLab
