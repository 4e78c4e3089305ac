import QubitLab.Proofs.Invariant
import QubitLab.Proofs.Simulator.Operations
import QubitLab.Proofs.Simulator.Running
import QubitLab.Proofs.Statevector.Sizes

/-!
# What evolution leaves alone

Gates, noise, runs and readings change two things of a simulator: the amplitudes, of which
there are as many after as before, and the state of the random numbers. So a property that
looks at neither, beyond the number of amplitudes, is kept by all of them, whether they
answer or fail. The snapshots and the noise are cases, and so is the size of the buffer.

This is a matter of how the operations are put together, and nothing is asked of the
arithmetic. It is proved once for all such properties.

## Main definitions

* `Simulator.Inert`: A property that evolution cannot change.
* `Operation.evolves`: The operation is an evolution, or sets the random numbers.

## Theorems

* `Inert.keeps_applyGate`, `Inert.keeps_simulate`, `Inert.keeps_observe`, …: One step.
* `Inert.keeps_perform`: One operation.
-/

namespace QubitLab

/-- The operation touches neither the snapshots nor the noise, and puts no snapshot back. -/
def Operation.evolves {R : Type} : Operation R → Bool
  | saveState _ | loadState _ | clearSnapshots | setNoiseModel _ _ | setCustomNoise _
  | clearNoise => false
  | _ => true

namespace Simulator

open Transition

variable {R G : Type}

/-- The property does not depend on the amplitudes, beyond their number, nor on the random
    numbers. -/
structure Inert (P : Simulator R G → Prop) : Prop where
  /-- It stays with other amplitudes. -/
  withBuffer : ∀ {s : Simulator R G} {b : Buffer (Complex R)}, P s → b.size = s.buffer.size →
    P (s.withBuffer b)
  /-- It stays with other random numbers. -/
  withGenerator : ∀ {s : Simulator R G} (g : G), P s → P { s with generator := g }

/-- The step keeps the property, whatever its records say. -/
abbrev KeepsAlways {α : Type} (P : Simulator R G → Prop) (step : Step R G α) : Prop :=
  Keeps (fun _ => True) P step

/-- Without a condition on the records, only the states count. -/
theorem keepsAlways_iff {α : Type} {P : Simulator R G → Prop} {step : Step R G α} :
    KeepsAlways P step ↔ ∀ s, P s → P (step s).state :=
  ⟨fun h s hs => h s hs fun _ _ => trivial, keeps_of_state⟩

namespace Inert

variable {P : Simulator R G → Prop} [Scalar R]

section Gates

/-- A gate changes the amplitudes, or nothing. -/
theorem keeps_applyGate (hP : Inert P) (g : Gate R) : KeepsAlways P (applyGate g) := by
  unfold applyGate
  refine keeps_bind (keeps_reading _) fun _ => keeps_require_bind fun _ _ => ?_
  refine keeps_bind (keeps_note _) fun _ => keeps_require_bind fun a _ => ?_
  exact keeps_change fun s hs => hP.withBuffer hs (GateAction.size_apply a s.buffer)

theorem keeps_applyMatrix (hP : Inert P) (q : Nat) (m : Matrix2 (Complex R)) :
    KeepsAlways P (applyMatrix q m) :=
  keeps_change fun _ hs => hP.withBuffer hs (Buffer.size_applyMatrix q m)

theorem keeps_rescale (hP : Inert P) : KeepsAlways P (rescale : Step R G Unit) :=
  keeps_of_state fun _ hs => hP.withBuffer hs (Buffer.size_rescale _)

omit [Scalar R] in
theorem keeps_checkQubit (q : Nat) : KeepsAlways P (checkQubit q : Step R G Unit) :=
  keeps_of_state fun _ hs => hs

theorem keeps_reset (hP : Inert P) : KeepsAlways P (reset : Step R G Unit) :=
  keeps_change fun _ hs => hP.withBuffer hs (Buffer.size_ground _)

end Gates

section Noise

/-- A matrix of the user's own changes the amplitudes, or is passed over. -/
theorem keeps_applyCustomCorrection (hP : Inert P) (q : Nat) (m : Matrix2 (Complex R)) :
    KeepsAlways P (applyCustomCorrection q m) := by
  refine keeps_of_state fun s hs => ?_
  rw [applyCustomCorrection_eq]
  split
  · exact hs
  · exact hP.withBuffer hs ((Buffer.size_rescale _).trans (Buffer.size_applyMatrix q m))

/-- A correction changes the amplitudes. -/
theorem keeps_applyCorrection (hP : Inert P) (q : Nat) (c : Correction R) :
    KeepsAlways P (applyCorrection q c) := by
  refine keeps_bind (keeps_note _) fun _ => ?_
  cases c with
  | custom m => exact hP.keeps_applyCustomCorrection q m
  | decay =>
      refine keeps_bind (keeps_reading _) fun excited => ?_
      split
      · exact keeps_pure ()
      · exact keeps_bind (hP.keeps_applyMatrix q _) fun _ => hP.keeps_rescale
  | bitFlip => exact hP.keeps_applyMatrix q _
  | bitPhaseFlip => exact hP.keeps_applyMatrix q _
  | phaseFlip => exact hP.keeps_applyMatrix q _

variable [RandomSource R G]

theorem keeps_sampleNoise (hP : Inert P) (model : NoiseModel R) :
    KeepsAlways P (sampleNoise model) :=
  keeps_of_state fun _ hs => hP.withGenerator _ hs

/-- Noise draws a random number and makes a correction. -/
theorem keeps_applyNoise (hP : Inert P) (q : Nat) :
    KeepsAlways P (applyNoise q : Step R G Unit) := by
  refine keeps_bind (keeps_checkQubit q) fun _ => keeps_bind (keeps_reading _) fun noise => ?_
  cases noise with
  | none => exact keeps_pure ()
  | some model =>
      refine keeps_bind (hP.keeps_sampleNoise model) fun drawn => ?_
      cases drawn with
      | none => exact keeps_pure ()
      | some c => exact hP.keeps_applyCorrection q c

/-- A gate and the noise behind it change amplitudes and random numbers. -/
theorem keeps_applyNoisyGate (hP : Inert P) (g : Gate R) :
    KeepsAlways P (applyNoisyGate g : Step R G Unit) := by
  refine keeps_bind (hP.keeps_applyGate g) fun _ => keeps_bind (keeps_reading _) fun noise => ?_
  cases noise with
  | none => exact keeps_pure ()
  | some model => exact keeps_forEach fun q _ => hP.keeps_applyNoise q

/-- So does a run, wherever it stops. -/
theorem keeps_simulate (hP : Inert P) (c : Circuit R) (shots : Nat) :
    KeepsAlways P (simulate c shots : Step R G Unit) := by
  refine keeps_require_bind fun _ _ => keeps_bind (keeps_reading _) fun _ => ?_
  refine keeps_require_bind fun _ _ => keeps_bind (keeps_note _) fun _ => ?_
  refine keeps_bind (keeps_forEach fun g _ => hP.keeps_applyNoisyGate g) fun _ => ?_
  exact keeps_bind hP.keeps_rescale fun _ => keeps_bind (keeps_reading _) fun _ => keeps_note _

end Noise

section Measurement

/-- A collapse changes the amplitudes, whether the outcome is likely or not. -/
theorem keeps_collapseTo (hP : Inert P) (q : Nat) (outcome : Bool) (p : R) :
    KeepsAlways P (collapseTo q outcome p) := by
  -- Both branches collapse, by different probabilities.
  have hchange : ∀ p : R, KeepsAlways P (change fun s => s.withBuffer
      (s.buffer.collapse q outcome p)) := fun p =>
    keeps_change fun _ hs => hP.withBuffer hs (Buffer.size_collapse q outcome p)
  unfold collapseTo
  split
  · exact hchange p
  · exact keeps_bind (keeps_note _) fun _ => keeps_bind (hchange 1) fun _ => hP.keeps_rescale

variable [RandomSource R G]

omit [Scalar R] in
theorem keeps_drawUnit (hP : Inert P) : KeepsAlways P (drawUnit : Step R G R) :=
  keeps_of_state fun _ hs => hP.withGenerator _ hs

/-- A reading draws a random number and collapses the amplitudes. -/
theorem keeps_observe (hP : Inert P) (q : Nat) : KeepsAlways P (observe q : Step R G Bool) := by
  refine keeps_bind (keeps_reading _) fun one => keeps_bind hP.keeps_drawUnit fun r => ?_
  refine keeps_bind (keeps_reading _) fun p => ?_
  exact keeps_bind (hP.keeps_collapseTo q _ p) fun _ => keeps_pure _

theorem keeps_measure (hP : Inert P) (q : Nat) : KeepsAlways P (measure q : Step R G Bool) :=
  keeps_bind (keeps_checkQubit q) fun _ => hP.keeps_observe q

theorem keeps_measureAll (hP : Inert P) : KeepsAlways P (measureAll : Step R G Bitstring) :=
  fun s => keeps_collect (fun q _ => hP.keeps_observe q) s

/-- The measurements of a circuit are readings, up to the one that fails. -/
theorem keeps_readInto (hP : Inert P) (measurements : List (Nat × Nat)) (register : Bitstring) :
    KeepsAlways P (readInto measurements register : Step R G Bitstring) := by
  induction measurements generalizing register with
  | nil => exact keeps_pure register
  | cons m rest ih =>
      exact keeps_bind (hP.keeps_measure m.1) fun _ => keeps_require_bind fun register _ =>
        ih register

theorem keeps_countOnce (hP : Inert P) (counts : Counts) :
    KeepsAlways P (countOnce counts : Step R G Counts) :=
  keeps_bind hP.keeps_measureAll fun _ => keeps_pure _

/-- Shots are readings. -/
theorem keeps_measurementStats (hP : Inert P) (shots : Nat) :
    KeepsAlways P (measurementStats shots : Step R G Counts) :=
  keeps_require_bind fun _ _ => keeps_repeated hP.keeps_countOnce shots _

/-- Shots of a circuit are resets, runs and readings. -/
theorem keeps_sampleCounts (hP : Inert P) (c : Circuit R) (shots : Nat) :
    KeepsAlways P (sampleCounts c shots : Step R G Counts) := by
  refine keeps_require_bind fun _ _ => keeps_repeated (fun counts => ?_) shots _
  exact keeps_bind hP.keeps_reset fun _ => keeps_bind (hP.keeps_simulate c 1) fun _ =>
    hP.keeps_countOnce counts

end Measurement

section Operations

variable [RandomSource R G]

omit [Scalar R] [RandomSource R G] in
theorem keeps_unanswered {α : Type} {step : Step R G α} (h : KeepsAlways P step) :
    KeepsAlways P (unanswered step) :=
  keeps_bind h fun _ => keeps_pure ()

/-- An operation that evolves the state keeps every inert property. -/
theorem keeps_perform (hP : Inert P) {op : Operation R} (hop : op.evolves = true) :
    KeepsAlways P (perform op : Step R G Unit) := by
  -- The operations that are left over at the end do not evolve the state.
  cases op with
  | applyGate g => exact hP.keeps_applyGate g
  | applyNoise q => exact hP.keeps_applyNoise q
  | simulate c shots => exact hP.keeps_simulate c shots
  | sampleCounts c shots => exact keeps_unanswered (hP.keeps_sampleCounts c shots)
  | measure q => exact keeps_unanswered (hP.keeps_measure q)
  | measureAll => exact keeps_unanswered hP.keeps_measureAll
  | measureCircuit c => exact keeps_unanswered (hP.keeps_readInto c.measurements _)
  | measurementStats shots => exact keeps_unanswered (hP.keeps_measurementStats shots)
  | reset => exact hP.keeps_reset
  | setSeed seed => exact keeps_change fun _ hs => hP.withGenerator _ hs
  | _ => exact absurd hop Bool.false_ne_true

end Operations

end Inert

end Simulator

end QubitLab
