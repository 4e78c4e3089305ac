import QubitLab.Statevector.Config
import QubitLab.Statevector.Counts
import QubitLab.Statevector.Record
import QubitLab.Statevector.Snapshots
import QubitLab.Statevector.Update
import QubitLab.Transition

/-!
# The simulator

A simulator holds the amplitudes of a register, named snapshots of them, the noise
if any, and the state of the random numbers. Its operations are transitions: an
operation that fails half way through a circuit has changed the state that far.

## Main definitions

* `Simulator`: The state.
* `Simulator.Step`: An operation.
* `Simulator.create`, `Simulator.createNoisy`, `Simulator.ofConfig`: The ways to
  set one up.
* `Simulator.setNoise`, `Simulator.setNoiseModel`, `Simulator.setCustomNoise`,
  `Simulator.clearNoise`: The noise.
* `Simulator.applyGate`, `Simulator.applyNoise`, `Simulator.simulate`: The
  evolution of the state.
* `Simulator.saveState`, `Simulator.loadState`, `Simulator.clearSnapshots`: The
  snapshots.
-/

namespace QubitLab

/-- The state of a simulator. -/
structure Simulator (R G : Type) where
  /-- The number of qubits. -/
  numQubits : Nat
  /-- The amplitudes; bit `q` of an index is the value of qubit `q`. -/
  buffer : Buffer (Complex R)
  /-- Copies of the amplitudes by name. -/
  snapshots : Snapshots (Buffer (Complex R))
  /-- The noise after every gate of a run. -/
  noise : Option (NoiseModel R)
  /-- The state of the random numbers. -/
  generator : G

namespace Simulator

variable {R G : Type}

/-- An operation on a simulator. -/
abbrev Step (R G α : Type) :=
  Transition (Error R) (SimulatorRecord R) (Simulator R G) α

/-- The setting up of a simulator. -/
abbrev Setup (R G : Type) :=
  Transition (Error R) (SimulatorRecord R) Unit (Simulator R G)

/-- The outcome of a step in the course of a setup. -/
def Setup.followedBy (setup : Setup R G) (step : Step R G Unit) : Setup R G := fun _ =>
  match setup () with
  | ⟨.error e, _, journal⟩ => ⟨.error e, (), journal⟩
  | ⟨.ok s, _, journal⟩ =>
    match step s with
    | ⟨.error e, _, later⟩ => ⟨.error e, (), journal ++ later⟩
    | ⟨.ok _, s, later⟩ => ⟨.ok s, (), journal ++ later⟩

/-- The simulator with another buffer. -/
def withBuffer (s : Simulator R G) (buffer : Buffer (Complex R)) : Simulator R G :=
  { s with buffer }

section Noise

/-- The step that sets the noise. -/
def setNoise (model : NoiseModel R) : Step R G Unit := do
  Transition.note (.noiseSet model)
  Transition.change fun s => { s with noise := some model }

/-- The step that takes the noise away. -/
def clearNoise : Step R G Unit := do
  Transition.note .noiseCleared
  Transition.change fun s => { s with noise := none }

/-- The step that sets the noise of a channel at a rate. -/
def setNoiseModel [Scalar R] (channel : NoiseChannel) (rate : R) : Step R G Unit := do
  let model ← Transition.require (NoiseModel.ofRate channel rate)
  setNoise model

/-- The step that gives the noise a matrix of the user's own. There has to be noise
    already, since the rate comes from it. -/
def setCustomNoise [Scalar R] (rows : Rows (Complex R)) : Step R G Unit := do
  match ← Transition.reading Simulator.noise with
  | none => Transition.fail (.invalidConfig .noiseMissing)
  | some model =>
    let model ← Transition.require (model.withCustom rows)
    setNoise model

end Noise

section Snapshots

/-- The step that keeps a copy of the amplitudes under a name. -/
def saveState (name : String) : Step R G Unit := do
  Transition.note (.snapshotSaved name)
  Transition.change fun s => { s with snapshots := s.snapshots.insert name s.buffer }

/-- The step that puts a copy of the amplitudes back. -/
def loadState (name : String) : Step R G Unit := do
  match ← Transition.reading fun s => s.snapshots.find? name with
  | none => Transition.fail (.snapshotNotFound name)
  | some buffer =>
    Transition.change fun s => s.withBuffer buffer
    Transition.note (.snapshotLoaded name)

/-- The step that drops all copies. -/
def clearSnapshots : Step R G Unit := do
  let count ← Transition.reading fun s => s.snapshots.size
  Transition.note (.snapshotsCleared count)
  Transition.change fun s => { s with snapshots := .empty }

end Snapshots

variable [Scalar R]

/-- The setup of a register in the ground state, without noise. What is asked for memory,
    `granted`, says whether there is room for so many amplitudes. -/
def create (granted : Nat → Bool) (generator : G) (numQubits : Nat) : Setup R G :=
  if numQubits = 0 then Transition.fail (.invalidArgument .noQubits)
  else
    match Statevector.dimension? numQubits with
    | none => Transition.fail (.invalidArgument (.notAddressable numQubits))
    | some amplitudes =>
      if granted amplitudes then
        Transition.andThen (Transition.note (.created numQubits amplitudes)) fun _ =>
          Transition.answer
            ⟨numQubits, Buffer.ground amplitudes, .empty, none, generator⟩
      else Transition.fail (.invalidArgument (.notAllocatable amplitudes))

/-- The setup of a register with noise. -/
def createNoisy (granted : Nat → Bool) (generator : G) (numQubits : Nat)
    (channel : NoiseChannel) (rate : R) : Setup R G :=
  (create granted generator numQubits).followedBy (setNoiseModel channel rate)

/-- The step to the ground state; the snapshots and the noise stay. -/
def reset : Step R G Unit :=
  Transition.change fun s => s.withBuffer (Buffer.ground s.buffer.size)

/-- The squared norm of the state. -/
def normSq (s : Simulator R G) : R := s.buffer.normSq

/-- The check that a qubit is inside the register. -/
def checkQubit (qubit : Nat) : Step R G Unit := fun s =>
  Transition.require (Gate.checkRange s.numQubits [qubit]) s

/-- The step that applies one gate. -/
def applyGate (g : Gate R) : Step R G Unit := do
  let numQubits ← Transition.reading Simulator.numQubits
  Transition.require (g.checkShape numQubits)
  Transition.note (.gateApplied g)
  let action ← Transition.require g.action
  Transition.change fun s => s.withBuffer (action.apply s.buffer)

/-- The step that divides the state by its norm, if it has one. -/
def rescale : Step R G Unit := fun s =>
  let (normSq, buffer) := s.buffer.rescale Scalar.zeroNorm
  let journal := if Scalar.le normSq Scalar.zeroNorm then [.rescalingSkipped normSq] else []
  ⟨.ok (), s.withBuffer buffer, journal⟩

/-- The step that applies a matrix to a qubit. -/
def applyMatrix (qubit : Nat) (m : Matrix2 (Complex R)) : Step R G Unit :=
  Transition.change fun s => s.withBuffer (s.buffer.applyMatrix qubit m)

/-- The step that applies a matrix of the user's own to a qubit and divides by the
    norm. A matrix that would leave no state is passed over. -/
def applyCustomCorrection (qubit : Nat) (m : Matrix2 (Complex R)) : Step R G Unit :=
  fun s =>
    let (normSq, buffer) := (s.buffer.applyMatrix qubit m).rescale Scalar.zeroNorm
    if Scalar.le normSq Scalar.zeroNorm then ⟨.ok (), s, [.correctionSkipped qubit]⟩
    else ⟨.ok (), s.withBuffer buffer, []⟩

/-- The step that applies a correction to a qubit. A qubit that is not excited
    cannot decay. -/
def applyCorrection (qubit : Nat) (c : Correction R) : Step R G Unit := do
  Transition.note (.corrected c qubit)
  match c with
  | .custom m => applyCustomCorrection qubit m
  | .decay =>
    let excited ← Transition.reading fun s => s.buffer.probabilityOfOne qubit
    if Scalar.le excited Scalar.zeroNorm then return ()
    else
      applyMatrix qubit c.matrix
      rescale
  | c => applyMatrix qubit c.matrix

variable [RandomSource R G]

/-- The step that takes up another seed. -/
def setSeed (seed : UInt64) : Step R G Unit :=
  Transition.change fun s => { s with generator := RandomSource.ofSeed seed }

/-- The setup of a checked configuration. The given generator is used when the
    configuration has no seed. -/
def ofConfig (granted : Nat → Bool) (generator : G) (config : SimulatorConfig R) :
    Setup R G := fun _ =>
  match config.validate with
  | .error e => ⟨.error e, (), []⟩
  | .ok _ =>
    let setup := create granted generator config.numQubits
    let setup := match config.noise with
      | some model => setup.followedBy (setNoise model)
      | none => setup
    let setup := match config.seed with
      | some seed => setup.followedBy (setSeed seed)
      | none => setup
    setup ()

/-- The step that asks a noise model whether something goes wrong. -/
def sampleNoise (model : NoiseModel R) : Step R G (Option (Correction R)) := fun s =>
  let (c, generator) := model.sample s.generator
  ⟨.ok c, { s with generator }, (model.events [c]).map .noiseDrawn⟩

/-- The step that lets the noise act once on a qubit. -/
def applyNoise (qubit : Nat) : Step R G Unit := do
  checkQubit qubit
  match ← Transition.reading Simulator.noise with
  | none => return ()
  | some model =>
    match ← sampleNoise model with
    | none => return ()
    | some c => applyCorrection qubit c

/-- The step that applies a gate and then lets the noise act once on each of its
    qubits. -/
def applyNoisyGate (g : Gate R) : Step R G Unit := do
  applyGate g
  match ← Transition.reading Simulator.noise with
  | none => return ()
  | some _ => Transition.forEach applyNoise g.qubits

/-- The check that a circuit fits into the register. -/
def checkWidth (c : Circuit R) (s : Simulator R G) : Except (Error R) Unit :=
  if s.numQubits < c.numQubits then
    .error (.qubitOutOfRange (c.numQubits - 1) s.numQubits)
  else .ok ()

/-- The check of the number of shots. -/
def checkShots (shots : Nat) : Except (Error R) Unit :=
  if shots = 0 then .error (.invalidArgument .noShots) else .ok ()

/-- The step that runs a circuit: its gates one after the other, each with the
    noise behind it, and a division by the norm at the end. The state is evolved
    once, whatever the number of shots. -/
def simulate (c : Circuit R) (shots : Nat) : Step R G Unit := do
  Transition.require (checkShots shots)
  let s ← Transition.reading fun s => (checkWidth c s, s.numQubits)
  Transition.require s.1
  Transition.note (.runStarted c.size s.2)
  Transition.forEach applyNoisyGate c.gates
  rescale
  let normSq ← Transition.reading normSq
  Transition.note (.runFinished normSq)

end Simulator

end QubitLab
