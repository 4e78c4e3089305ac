import QubitLab.Bitstring
import QubitLab.Statevector.Simulator

/-!
# Measurement

Reading a qubit draws a number from the unit interval: the outcome is one exactly
when the number is below the probability of one. The state is then collapsed to
the part that agrees with the outcome.

## Main definitions

* `Simulator.observe`: The reading of a qubit of the register.
* `Simulator.measure`: The reading of any qubit.
* `Simulator.measureAll`: The reading of all qubits.
* `Simulator.measureCircuit`: The readings that a circuit asks for.
* `Simulator.measurementStats`: Repeated readings of the same state.
* `Simulator.sampleCounts`: Repeated runs of a circuit.
-/

namespace QubitLab

namespace Simulator

variable {R G : Type} [Scalar R] [RandomSource R G]

/-- The step that collapses a state to an outcome of a given probability. An
    outcome whose probability counts as zero is scaled by the norm that is left. -/
def collapseTo (qubit : Nat) (outcome : Bool) (probability : R) : Step R G Unit :=
  if Scalar.lt Scalar.zeroNorm probability then
    Transition.change fun s => s.withBuffer (s.buffer.collapse qubit outcome probability)
  else do
    Transition.note (.unlikelyOutcome qubit outcome probability)
    Transition.change fun s => s.withBuffer (s.buffer.collapse qubit outcome 1)
    rescale

/-- The step that draws a number from the unit interval. -/
def drawUnit : Step R G R := fun s =>
  let (r, generator) := RandomSource.unit s.generator
  ⟨.ok r, { s with generator }, []⟩

/-- The step that reads a qubit of the register. -/
def observe (qubit : Nat) : Step R G Bool := do
  let one ← Transition.reading fun s => s.buffer.probabilityOfOne qubit
  let r ← drawUnit
  let outcome := Scalar.lt r one
  let probability ←
    Transition.reading fun s => if outcome then one else s.buffer.normSq - one
  collapseTo qubit outcome probability
  return outcome

/-- The step that reads a qubit. -/
def measure (qubit : Nat) : Step R G Bool := do
  checkQubit qubit
  observe qubit

/-- The step that reads all qubits, from the first to the last. -/
def measureAll : Step R G Bitstring := fun s =>
  Transition.collect observe (List.range s.numQubits) s

/-- The classical register with an outcome in one of its bits. -/
def store (clbit : Nat) (outcome : Bool) (register : Bitstring) :
    Except (Error R) Bitstring :=
  if clbit < register.length then .ok (register.set clbit outcome)
  else .error (.clbitOutOfRange clbit register.length)

/-- The step that makes the measurements of a circuit one after the other, and
    collects the outcomes in a classical register. -/
def readInto : List (Nat × Nat) → Bitstring → Step R G Bitstring
  | [], register => return register
  | (qubit, clbit) :: rest, register => do
    let outcome ← measure qubit
    let register ← Transition.require (store clbit outcome register)
    readInto rest register

/-- The step that makes the measurements of a circuit. Bits that nothing is read
    into stay zero. -/
def measureCircuit (c : Circuit R) : Step R G Bitstring :=
  readInto c.measurements (List.replicate c.numClbits false)

/-- The step that reads all qubits and counts the outcome. -/
def countOnce (counts : Counts) : Step R G Counts := do
  let bits ← measureAll
  return counts.add bits.text

/-- The step that reads all qubits a number of times, each time from the state that
    the time before left. -/
def measurementStats (shots : Nat) : Step R G Counts := do
  Transition.require (checkShots shots)
  Transition.repeated countOnce shots .empty

/-- The step that runs a circuit from the ground state, reads all qubits, and counts
    the outcome. -/
def sampleOnce (c : Circuit R) (counts : Counts) : Step R G Counts := do
  reset
  simulate c 1
  countOnce counts

/-- The step that runs a circuit a number of times, each time from the ground
    state, and counts the outcomes. -/
def sampleCounts (c : Circuit R) (shots : Nat) : Step R G Counts := do
  Transition.require (checkShots shots)
  Transition.repeated (sampleOnce c) shots .empty

end Simulator

end QubitLab
