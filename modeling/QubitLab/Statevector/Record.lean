import QubitLab.Gate.Qasm
import QubitLab.Noise.Model

/-!
# The journal of a simulator

What a simulator notes down while it works, and how much it matters.

## Main definitions

* `Level`: How much a record matters.
* `SimulatorRecord`: A record.
* `SimulatorRecord.level`, `SimulatorRecord.message`: Its level and its text.
-/

namespace QubitLab

/-- How much a record matters. -/
inductive Level where
  /-- Something may be wrong. -/
  | warn
  /-- A step as a whole. -/
  | debug
  /-- A detail of a step. -/
  | trace
deriving DecidableEq, Repr

/-- The name of a level. -/
def Level.name : Level → String
  | warn => "warn"
  | debug => "debug"
  | trace => "trace"

/-- What a simulator notes down. -/
inductive SimulatorRecord (R : Type) where
  /-- A register was set up. -/
  | created (numQubits amplitudes : Nat)
  /-- Noise was set. -/
  | noiseSet (model : NoiseModel R)
  /-- Noise was taken away. -/
  | noiseCleared
  /-- A gate is about to act. -/
  | gateApplied (gate : Gate R)
  /-- Noise struck. -/
  | noiseDrawn (event : NoiseEvent R)
  /-- A correction is about to act on a qubit. -/
  | corrected (correction : Correction R) (qubit : Nat)
  /-- A correction would have left no state, and was passed over. -/
  | correctionSkipped (qubit : Nat)
  /-- A state has no norm to be divided by. -/
  | rescalingSkipped (normSq : R)
  /-- A run starts. -/
  | runStarted (gates numQubits : Nat)
  /-- A run ended. -/
  | runFinished (normSq : R)
  /-- A qubit was read as what it should hardly ever be. -/
  | unlikelyOutcome (qubit : Nat) (outcome : Bool) (probability : R)
  /-- A snapshot was taken. -/
  | snapshotSaved (name : String)
  /-- A snapshot was put back. -/
  | snapshotLoaded (name : String)
  /-- All snapshots were dropped. -/
  | snapshotsCleared (count : Nat)

namespace SimulatorRecord

/-- How much the record matters. -/
def level {R : Type} : SimulatorRecord R → Level
  | correctionSkipped _ | rescalingSkipped _ | unlikelyOutcome _ _ _ => .warn
  | gateApplied _ | noiseDrawn _ | corrected _ _ => .trace
  | _ => .debug

/-- The text of the record. -/
def message : SimulatorRecord Float → String
  | created numQubits amplitudes =>
    s!"state-vector simulator: {numQubits} qubits, {amplitudes} amplitudes"
  | noiseSet model => "noise model set: " ++ model.summary
  | noiseCleared => "noise model cleared"
  | gateApplied gate => "apply " ++ gate.qasm
  | noiseDrawn event => event.message
  | corrected correction qubit =>
    "noise " ++ correction.text ++ " on qubit " ++ toString qubit
  | correctionSkipped qubit =>
    s!"custom noise on q{qubit} annihilates the state; skipped"
  | rescalingSkipped normSq =>
    "renormalization skipped: near-zero norm² " ++ Decimal.Layout.exponential.text normSq
  | runStarted gates numQubits => s!"simulate: {gates} gates on {numQubits} qubits"
  | runFinished normSq => "simulate done: norm² = " ++ Decimal.fixedText 12 normSq
  | unlikelyOutcome qubit outcome probability =>
    s!"measure q{qubit}: outcome {outcome} has probability " ++
      Decimal.Layout.exponential.text probability
  | snapshotSaved name => "snapshot saved: " ++ name
  | snapshotLoaded name => "snapshot loaded: " ++ name
  | snapshotsCleared count => s!"snapshot cache cleared ({count} entries)"

end SimulatorRecord

end QubitLab
