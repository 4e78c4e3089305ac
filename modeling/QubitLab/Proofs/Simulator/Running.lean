import QubitLab.Proofs.Agreement
import QubitLab.Proofs.Circuit.Renamed
import QubitLab.Proofs.Gate.Action
import QubitLab.Statevector.Measurement

/-!
# Runs that succeed

A circuit that passes its check runs on a simulator of its width. The simulator makes
checks of its own, of every gate before it acts and of every qubit before noise acts
on it or it is read, and all but one of them ask for nothing that the check of the
circuit has not asked for. The exception is the matrix of an `iswap` or `sqiswap`
gate, which the circuit takes on trust and the simulator compares with a unitary one.
`Gate.FixedUnitary` is what that check comes to.

Nothing that happens in a run depends on the amplitudes when it comes to failing, so
the width is all that has to be known of the states on the way.

## Main definitions

* `Simulator.HasWidth`: A simulator is over a register of so many qubits.
* `Simulator.observed`: Running a circuit once and making its measurements.

## Theorems

* `answers_applyGate`: When a gate is applied, and what it does.
* `succeeds_applyGate`, `succeeds_applyNoise`: One step.
* `succeeds_simulate`, `succeeds_measureCircuit`: A run, and the measurements.
* `succeeds_observed`: A run of a circuit that passes its check.
-/

namespace QubitLab

namespace Simulator

open Transition Circuit

variable {R G : Type} {n : Nat}

/-- The simulator is over a register of `n` qubits. -/
def HasWidth (n : Nat) (s : Simulator R G) : Prop := s.numQubits = n

variable [Scalar R]

section Gates

/-- A gate is applied when it has the right shape and an action, and the action is all
    that happens. -/
theorem answers_applyGate (g : Gate R) (s t : Simulator R G) :
    Answers (applyGate g) s () t ↔
      g.Shaped s.numQubits ∧ ∃ a, g.action = .ok a ∧ t = s.withBuffer (a.apply s.buffer) := by
  unfold applyGate
  simp only [answers_bind, answers_reading, answers_require, answers_note, answers_change]
  constructor
  · rintro ⟨_, _, ⟨rfl, rfl⟩, ⟨⟩, _, ⟨hg, rfl⟩, ⟨⟩, _, rfl, a, _, ⟨ha, rfl⟩, rfl⟩
    exact ⟨(Gate.checkShape_eq_ok g _).mp hg, a, ha, rfl⟩
  · rintro ⟨hg, a, ha, rfl⟩
    have hcheck := (Gate.checkShape_eq_ok g s.numQubits).mpr hg
    exact ⟨_, s, ⟨rfl, rfl⟩, (), s, ⟨hcheck, rfl⟩, (), s, rfl, a, s, ⟨ha, rfl⟩, rfl⟩

/-- A gate that fits is applied, if the simulator takes its matrix as well. -/
theorem succeeds_applyGate {g : Gate R} (hg : g.Fits n) (hu : g.FixedUnitary) :
    Succeeds (HasWidth n) (applyGate g : Step R G Unit) := by
  intro s hs
  rcases hg.exists_action hu with ⟨a, ha⟩
  exact ⟨(), _, (answers_applyGate g s _).mpr ⟨hs ▸ hg.shaped, a, ha, rfl⟩, hs⟩

theorem succeeds_applyMatrix (q : Nat) (m : Matrix2 (Complex R)) :
    Succeeds (HasWidth n) (applyMatrix q m : Step R G Unit) :=
  succeeds_change fun _ hs => hs

theorem succeeds_rescale : Succeeds (HasWidth n) (rescale : Step R G Unit) :=
  fun s hs => ⟨(), s.withBuffer (s.buffer.rescale Scalar.zeroNorm).2, ⟨rfl, rfl⟩, hs⟩

omit [Scalar R] in
/-- A qubit of the register passes its check, and nothing is noted down. -/
theorem checkQubit_of_lt {s : Simulator R G} {q : Nat} (hq : q < s.numQubits) :
    checkQubit q s = ⟨.ok (), s, []⟩ := by
  unfold checkQubit require
  rw [Gate.checkRange_singleton hq]

omit [Scalar R] in
theorem succeeds_checkQubit {q : Nat} (hq : q < n) :
    Succeeds (HasWidth n) (checkQubit q : Step R G Unit) := by
  intro s hs
  have hcheck : checkQubit q s = ⟨.ok (), s, []⟩ := checkQubit_of_lt (hs ▸ hq)
  exact ⟨(), s, ⟨congrArg Outcome.result hcheck, congrArg Outcome.state hcheck⟩, hs⟩

end Gates

section Noise

/-- The correction by the norm that it would leave. -/
theorem applyCustomCorrection_eq (q : Nat) (m : Matrix2 (Complex R)) (s : Simulator R G) :
    applyCustomCorrection q m s =
      if Scalar.le ((s.buffer.applyMatrix q m).rescale Scalar.zeroNorm).1 Scalar.zeroNorm = true
      then ⟨.ok (), s, [.correctionSkipped q]⟩
      else ⟨.ok (), s.withBuffer ((s.buffer.applyMatrix q m).rescale Scalar.zeroNorm).2, []⟩ :=
  rfl

/-- A matrix of the user's own is applied or passed over, and both are answers. -/
theorem succeeds_applyCustomCorrection (q : Nat) (m : Matrix2 (Complex R)) :
    Succeeds (HasWidth n) (applyCustomCorrection q m : Step R G Unit) := by
  intro s hs
  unfold Answers
  rw [applyCustomCorrection_eq]
  by_cases hle : Scalar.le ((s.buffer.applyMatrix q m).rescale Scalar.zeroNorm).1
      Scalar.zeroNorm = true
  · rw [if_pos hle]
    exact ⟨(), s, ⟨rfl, rfl⟩, hs⟩
  · rw [if_neg hle]
    exact ⟨(), s.withBuffer _, ⟨rfl, rfl⟩, hs⟩

/-- No correction fails. -/
theorem succeeds_applyCorrection (q : Nat) (c : Correction R) :
    Succeeds (HasWidth n) (applyCorrection q c : Step R G Unit) := by
  unfold applyCorrection
  refine succeeds_bind (succeeds_note _) fun _ => ?_
  cases c with
  | custom m => exact succeeds_applyCustomCorrection q m
  | decay =>
      refine succeeds_bind (succeeds_reading _) fun excited => ?_
      by_cases hle : Scalar.le excited Scalar.zeroNorm = true
      · rw [if_pos hle]
        exact succeeds_pure ()
      · rw [if_neg hle]
        exact succeeds_bind (succeeds_applyMatrix q _) fun _ => succeeds_rescale
  | bitFlip => exact succeeds_applyMatrix q _
  | bitPhaseFlip => exact succeeds_applyMatrix q _
  | phaseFlip => exact succeeds_applyMatrix q _

variable [RandomSource R G]

theorem succeeds_sampleNoise (model : NoiseModel R) :
    Succeeds (HasWidth n) (sampleNoise model : Step R G _) :=
  fun s hs => ⟨(model.sample s.generator).1,
    { s with generator := (model.sample s.generator).2 }, ⟨rfl, rfl⟩, hs⟩

/-- Noise on a qubit of the register does not fail, whatever is drawn. -/
theorem succeeds_applyNoise {q : Nat} (hq : q < n) :
    Succeeds (HasWidth n) (applyNoise q : Step R G Unit) := by
  unfold applyNoise
  refine succeeds_bind (succeeds_checkQubit hq) fun _ => ?_
  refine succeeds_bind (succeeds_reading _) fun noise => ?_
  cases noise with
  | none => exact succeeds_pure ()
  | some model =>
      refine succeeds_bind (succeeds_sampleNoise model) fun drawn => ?_
      cases drawn with
      | none => exact succeeds_pure ()
      | some c => exact succeeds_applyCorrection q c

/-- Nor does a gate that fits, with the noise on its qubits. -/
theorem succeeds_applyNoisyGate {g : Gate R} (hg : g.Fits n) (hu : g.FixedUnitary) :
    Succeeds (HasWidth n) (applyNoisyGate g : Step R G Unit) := by
  unfold applyNoisyGate
  refine succeeds_bind (succeeds_applyGate hg hu) fun _ => ?_
  refine succeeds_bind (succeeds_reading _) fun noise => ?_
  cases noise with
  | none => exact succeeds_pure ()
  | some model => exact succeeds_forEach fun q hq => succeeds_applyNoise (hg.1 q hq)

end Noise

section Circuits

omit [Scalar R] in
/-- A circuit that is not too wide passes the check of its width. -/
theorem checkWidth_eq_ok {c : Circuit R} {s : Simulator R G} (h : c.numQubits ≤ s.numQubits) :
    checkWidth c s = .ok () := by
  unfold checkWidth
  rw [if_neg (by omega)]

variable [RandomSource R G]

/-- A circuit that passes its check runs to its end. -/
theorem succeeds_simulate {c : Circuit R} (hn : c.numQubits = n) (hc : c.WellFormed)
    (hu : ∀ g ∈ c.gates, g.FixedUnitary) {shots : Nat} (hshots : shots ≠ 0) :
    Succeeds (HasWidth n) (simulate c shots : Step R G Unit) := by
  unfold simulate
  refine succeeds_require_bind (by unfold checkShots; rw [if_neg hshots]) ?_
  -- What is read of the state is the same in every state of the width.
  have hread : ∀ s : Simulator R G, HasWidth n s → (checkWidth c s, s.numQubits) = (.ok (), n) := by
    intro s hs
    rw [checkWidth_eq_ok (Nat.le_of_eq (hn.trans hs.symm)), hs]
  refine succeeds_reading_bind hread ?_
  refine succeeds_require_bind rfl ?_
  refine succeeds_bind (succeeds_note _) fun _ => ?_
  refine succeeds_bind (succeeds_forEach fun g hg => ?_) fun _ => ?_
  · -- Each gate fits into the register, as the check of the circuit says.
    exact succeeds_applyNoisyGate (hn ▸ hc.1 g hg) (hu g hg)
  · refine succeeds_bind succeeds_rescale fun _ => ?_
    exact succeeds_bind (succeeds_reading _) fun _ => succeeds_note _

end Circuits

section Measurement

/-- A collapse succeeds for unlikely outcomes as well. -/
theorem succeeds_collapseTo (q : Nat) (outcome : Bool) (probability : R) :
    Succeeds (HasWidth n) (collapseTo q outcome probability : Step R G Unit) := by
  unfold collapseTo
  by_cases hlt : Scalar.lt Scalar.zeroNorm probability = true
  · rw [if_pos hlt]
    exact succeeds_change fun s hs => hs
  · rw [if_neg hlt]
    refine succeeds_bind (succeeds_note _) fun _ => ?_
    exact succeeds_bind (succeeds_change fun s hs => hs) fun _ => succeeds_rescale

variable [RandomSource R G]

omit [Scalar R] in
theorem succeeds_drawUnit : Succeeds (HasWidth n) (drawUnit : Step R G R) :=
  fun s hs => ⟨(RandomSource.unit s.generator).1,
    { s with generator := (RandomSource.unit s.generator).2 }, ⟨rfl, rfl⟩, hs⟩

/-- Reading a qubit of the register does not fail. -/
theorem succeeds_observe (q : Nat) :
    Succeeds (HasWidth n) (observe q : Step R G Bool) := by
  unfold observe
  refine succeeds_bind (succeeds_reading _) fun one => ?_
  refine succeeds_bind succeeds_drawUnit fun r => ?_
  refine succeeds_bind (succeeds_reading _) fun probability => ?_
  exact succeeds_bind (succeeds_collapseTo q _ _) fun _ => succeeds_pure _

theorem succeeds_measure {q : Nat} (hq : q < n) :
    Succeeds (HasWidth n) (measure q : Step R G Bool) :=
  succeeds_bind (succeeds_checkQubit hq) fun _ => succeeds_observe q

/-- Every measurement has its bit in the register, and a register keeps its length
    when an outcome is stored. -/
theorem succeeds_readInto {measurements : List (Nat × Nat)} {register : Bitstring}
    (hm : ∀ m ∈ measurements, m.1 < n ∧ m.2 < register.length) :
    Succeeds (HasWidth n) (readInto measurements register : Step R G Bitstring) := by
  -- The induction is on the measurements, and the register changes from one to the next.
  induction measurements generalizing register with
  | nil => exact succeeds_pure register
  | cons m rest ih =>
      rcases hm m List.mem_cons_self with ⟨hq, hbit⟩
      refine succeeds_bind (succeeds_measure hq) fun outcome => ?_
      have hstore : (store m.2 outcome register : Except (Error R) Bitstring)
          = .ok (register.set m.2 outcome) := by
        unfold store
        rw [if_pos hbit]
      refine succeeds_require_bind hstore (ih fun p hp => ?_)
      rw [List.length_set]
      exact hm p (List.mem_cons_of_mem m hp)

/-- The measurements of a circuit that passes its check are made. -/
theorem succeeds_measureCircuit {c : Circuit R} (hn : c.numQubits = n) (hc : c.WellFormed) :
    Succeeds (HasWidth n) (measureCircuit c : Step R G Bitstring) := by
  refine succeeds_readInto fun m hm => ?_
  rw [List.length_replicate, ← hn]
  exact hc.2 m hm

/-- The step that runs a circuit once and makes its measurements. -/
def observed (c : Circuit R) : Step R G Bitstring := do
  simulate c 1
  measureCircuit c

/-- So it can be run and measured. -/
theorem succeeds_observed {c : Circuit R} (hn : c.numQubits = n) (hc : c.WellFormed)
    (hu : ∀ g ∈ c.gates, g.FixedUnitary) :
    Succeeds (HasWidth n) (observed c : Step R G Bitstring) :=
  succeeds_bind (succeeds_simulate hn hc hu Nat.one_ne_zero)
    fun _ => succeeds_measureCircuit hn hc

end Measurement

end Simulator

end QubitLab
