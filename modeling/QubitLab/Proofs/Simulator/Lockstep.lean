import QubitLab.Proofs.Agreement
import QubitLab.Proofs.Simulator.Operations
import QubitLab.Proofs.Simulator.Running

/-!
# Simulators in lockstep

Two simulators with the same amplitudes, over registers of one width and with the same
random numbers to come, go through evolution and measurement in the same way, whatever else
is different about them. The snapshots may differ, and the noise as long as both have the
same to say when it is asked.

`Twins` is a relation of this kind, and the steps below agree over every such relation. The
noise is the one thing that they depend on beyond it. How two runs compare behind a gate is
therefore a hypothesis here, and each use of this module brings its own reason for it.

## Main definitions

* `Simulator.Twins`: A relation between simulators that evolution does not tell apart.

## Theorems

* `Twins.agree_applyGate`, `Twins.agree_observe`, `Twins.agree_measureAll`, …: One step.
* `Twins.agree_simulate`, `Twins.agree_sampleCounts`: A run, and a number of them.
-/

namespace QubitLab

namespace Simulator

open Transition

variable {R G : Type}

/-- Related simulators look the same to gates, measurements and random draws, and they stay
    related when the same is done to both. -/
structure Twins (ρ : Simulator R G → Simulator R G → Prop) : Prop where
  /-- The registers have one width. -/
  numQubits : ∀ {s t}, ρ s t → t.numQubits = s.numQubits
  /-- The amplitudes are the same. -/
  buffer : ∀ {s t}, ρ s t → t.buffer = s.buffer
  /-- The random numbers to come are the same. -/
  generator : ∀ {s t}, ρ s t → t.generator = s.generator
  /-- They stay related with other amplitudes. -/
  withBuffer : ∀ {s t} (b : Buffer (Complex R)), ρ s t → ρ (s.withBuffer b) (t.withBuffer b)
  /-- They stay related with other random numbers. -/
  withGenerator : ∀ {s t} (g : G), ρ s t → ρ { s with generator := g } { t with generator := g }

namespace Twins

variable {ρ : Simulator R G → Simulator R G → Prop}

section Changes

/-- Both buffers are changed in one way, which may depend on what they hold. -/
theorem agree_update (h : Twins ρ) (f : Buffer (Complex R) → Buffer (Complex R)) :
    Agree ρ (change fun s => s.withBuffer (f s.buffer) : Step R G Unit)
      (change fun s => s.withBuffer (f s.buffer) : Step R G Unit) := by
  refine agree_change fun s t hst => ?_
  rw [h.buffer hst]
  exact h.withBuffer _ hst

/-- Both runs read the same of their amplitudes. -/
theorem agree_inspect {α : Type} (h : Twins ρ) (f : Buffer (Complex R) → α) :
    Agree ρ (reading fun s => f s.buffer : Step R G α)
      (reading fun s => f s.buffer : Step R G α) :=
  agree_reading fun s t hst => by rw [h.buffer hst]

/-- A qubit is inside both registers or outside both. -/
theorem agree_checkQubit (h : Twins ρ) (q : Nat) :
    Agree ρ (checkQubit q : Step R G Unit) (checkQubit q) := by
  intro s t hst
  unfold checkQubit require
  rw [h.numQubits hst]
  exact ⟨rfl, hst⟩

end Changes

section Gates

variable [Scalar R]

theorem agree_reset (h : Twins ρ) : Agree ρ (reset : Step R G Unit) reset :=
  h.agree_update fun b => Buffer.ground b.size

/-- The gate is checked against the width, and then it changes both buffers in one way. -/
theorem agree_applyGate (h : Twins ρ) (g : Gate R) :
    Agree ρ (applyGate g : Step R G Unit) (applyGate g) := by
  unfold applyGate
  refine agree_bind (agree_reading fun _ _ hst => h.numQubits hst) fun width => ?_
  refine agree_bind (agree_require rfl) fun _ => agree_bind (agree_note _ _) fun _ => ?_
  exact agree_bind (agree_require rfl) fun a => h.agree_update a.apply

theorem agree_applyMatrix (h : Twins ρ) (q : Nat) (m : Matrix2 (Complex R)) :
    Agree ρ (applyMatrix q m : Step R G Unit) (applyMatrix q m) :=
  h.agree_update fun b => b.applyMatrix q m

/-- Both runs divide by one norm, or neither divides. -/
theorem agree_rescale (h : Twins ρ) : Agree ρ (rescale : Step R G Unit) rescale := by
  intro s t hst
  unfold rescale
  rw [h.buffer hst]
  exact ⟨rfl, h.withBuffer _ hst⟩

end Gates

section Noise

variable [Scalar R]

/-- The norm that decides whether the correction is kept is the same. -/
theorem agree_applyCustomCorrection (h : Twins ρ) (q : Nat) (m : Matrix2 (Complex R)) :
    Agree ρ (applyCustomCorrection q m : Step R G Unit) (applyCustomCorrection q m) := by
  intro s t hst
  rw [applyCustomCorrection_eq, applyCustomCorrection_eq, h.buffer hst]
  split
  · exact ⟨rfl, hst⟩
  · exact ⟨rfl, h.withBuffer _ hst⟩

theorem agree_applyCorrection (h : Twins ρ) (q : Nat) (c : Correction R) :
    Agree ρ (applyCorrection q c : Step R G Unit) (applyCorrection q c) := by
  unfold applyCorrection
  refine agree_bind (agree_note _ _) fun _ => ?_
  cases c with
  | custom m => exact h.agree_applyCustomCorrection q m
  | decay =>
      -- A decay is looked up in the amplitudes: a qubit that is not excited does not decay.
      refine agree_bind (h.agree_inspect fun b => b.probabilityOfOne q) fun excited => ?_
      split
      · exact agree_pure ()
      · exact agree_bind (h.agree_applyMatrix q _) fun _ => h.agree_rescale
  | bitFlip => exact h.agree_applyMatrix q _
  | bitPhaseFlip => exact h.agree_applyMatrix q _
  | phaseFlip => exact h.agree_applyMatrix q _

variable [RandomSource R G]

/-- The model makes the same draws. -/
theorem agree_sampleNoise (h : Twins ρ) (model : NoiseModel R) :
    Agree ρ (sampleNoise model : Step R G _) (sampleNoise model) := by
  intro s t hst
  unfold sampleNoise
  rw [h.generator hst]
  exact ⟨rfl, h.withGenerator _ hst⟩

/-- Where both simulators have one noise, it acts in the same way. -/
theorem agree_applyNoise (h : Twins ρ) (hnoise : ∀ {s t}, ρ s t → t.noise = s.noise) (q : Nat) :
    Agree ρ (applyNoise q : Step R G Unit) (applyNoise q) := by
  unfold applyNoise
  refine agree_bind (h.agree_checkQubit q) fun _ => ?_
  refine agree_bind (agree_reading fun _ _ hst => hnoise hst) fun noise => ?_
  cases noise with
  | none => exact agree_pure ()
  | some model =>
      refine agree_bind (h.agree_sampleNoise model) fun drawn => ?_
      cases drawn with
      | none => exact agree_pure ()
      | some c => exact h.agree_applyCorrection q c

/-- A gate and the noise behind it, where both simulators have one noise. -/
theorem agree_applyNoisyGate (h : Twins ρ) (hnoise : ∀ {s t}, ρ s t → t.noise = s.noise)
    (g : Gate R) : Agree ρ (applyNoisyGate g : Step R G Unit) (applyNoisyGate g) := by
  unfold applyNoisyGate
  refine agree_bind (h.agree_applyGate g) fun _ => ?_
  refine agree_bind (agree_reading fun _ _ hst => hnoise hst) fun noise => ?_
  cases noise with
  | none => exact agree_pure ()
  | some model => exact agree_forEach_self (h.agree_applyNoise hnoise) g.qubits

end Noise

section Measurement

variable [Scalar R]

/-- Whether the probability counts as zero does not depend on the run. -/
theorem agree_collapseTo (h : Twins ρ) (q : Nat) (outcome : Bool) (p : R) :
    Agree ρ (collapseTo q outcome p : Step R G Unit) (collapseTo q outcome p) := by
  unfold collapseTo
  split
  · exact h.agree_update fun b => b.collapse q outcome p
  · refine agree_bind (agree_note _ _) fun _ => ?_
    exact agree_bind (h.agree_update fun b => b.collapse q outcome 1) fun _ => h.agree_rescale

variable [RandomSource R G]

omit [Scalar R] in
/-- The next draw is the same, and so are those after it. -/
theorem agree_drawUnit (h : Twins ρ) : Agree ρ (drawUnit : Step R G R) drawUnit := by
  intro s t hst
  unfold drawUnit
  rw [h.generator hst]
  exact ⟨rfl, h.withGenerator _ hst⟩

/-- Both runs compare one draw with one share of the norm. -/
theorem agree_observe (h : Twins ρ) (q : Nat) :
    Agree ρ (observe q : Step R G Bool) (observe q) := by
  unfold observe
  refine agree_bind (h.agree_inspect fun b => b.probabilityOfOne q) fun one => ?_
  refine agree_bind h.agree_drawUnit fun r => ?_
  refine agree_bind (h.agree_inspect fun b => if Scalar.lt r one then one else b.normSq - one)
    fun p => ?_
  exact agree_bind (h.agree_collapseTo q _ p) fun _ => agree_pure _

theorem agree_measure (h : Twins ρ) (q : Nat) :
    Agree ρ (measure q : Step R G Bool) (measure q) :=
  agree_bind (h.agree_checkQubit q) fun _ => h.agree_observe q

/-- The registers have one width, so as many qubits are read. -/
theorem agree_measureAll (h : Twins ρ) : Agree ρ (measureAll : Step R G Bitstring) measureAll := by
  intro s t hst
  unfold measureAll
  rw [h.numQubits hst]
  exact agree_collect h.agree_observe (List.range s.numQubits) s t hst

theorem agree_readInto (h : Twins ρ) (measurements : List (Nat × Nat)) (register : Bitstring) :
    Agree ρ (readInto measurements register : Step R G Bitstring)
      (readInto measurements register) := by
  induction measurements generalizing register with
  | nil => exact agree_pure register
  | cons m rest ih =>
      refine agree_bind (h.agree_measure m.1) fun outcome => ?_
      exact agree_bind (agree_require rfl) fun register => ih register

theorem agree_measureCircuit (h : Twins ρ) (c : Circuit R) :
    Agree ρ (measureCircuit c : Step R G Bitstring) (measureCircuit c) :=
  h.agree_readInto c.measurements _

theorem agree_countOnce (h : Twins ρ) (counts : Counts) :
    Agree ρ (countOnce counts : Step R G Counts) (countOnce counts) :=
  agree_bind h.agree_measureAll fun _ => agree_pure _

/-- Shots that are counted, with the same counts. -/
theorem agree_measurementStats (h : Twins ρ) (shots : Nat) :
    Agree ρ (measurementStats shots : Step R G Counts) (measurementStats shots) :=
  agree_bind (agree_require rfl) fun _ => agree_repeated h.agree_countOnce shots _

end Measurement

section Runs

variable [Scalar R] [RandomSource R G] (h : Twins ρ)
  (hgate : ∀ g : Gate R, Agree ρ (applyNoisyGate g : Step R G Unit) (applyNoisyGate g))

include h hgate

/-- A run of gates that agree with their noise. -/
theorem agree_simulate (c : Circuit R) (shots : Nat) :
    Agree ρ (simulate c shots : Step R G Unit) (simulate c shots) := by
  unfold simulate
  refine agree_bind (agree_require rfl) fun _ => ?_
  refine agree_bind (agree_reading fun s t hst => ?_) fun checked => ?_
  · unfold checkWidth
    rw [h.numQubits hst]
  · refine agree_bind (agree_require rfl) fun _ => agree_bind (agree_note _ _) fun _ => ?_
    refine agree_bind (agree_forEach_self hgate c.gates) fun _ => ?_
    refine agree_bind h.agree_rescale fun _ => ?_
    exact agree_bind (h.agree_inspect Buffer.normSq) fun _ => agree_note _ _

theorem agree_sampleOnce (c : Circuit R) (counts : Counts) :
    Agree ρ (sampleOnce c counts : Step R G Counts) (sampleOnce c counts) :=
  agree_bind h.agree_reset fun _ => agree_bind (h.agree_simulate hgate c 1) fun _ =>
    h.agree_countOnce counts

/-- Runs that are counted, with the same counts. -/
theorem agree_sampleCounts (c : Circuit R) (shots : Nat) :
    Agree ρ (sampleCounts c shots : Step R G Counts) (sampleCounts c shots) :=
  agree_bind (agree_require rfl) fun _ => agree_repeated (h.agree_sampleOnce hgate c) shots _

end Runs

end Twins

end Simulator

end QubitLab
