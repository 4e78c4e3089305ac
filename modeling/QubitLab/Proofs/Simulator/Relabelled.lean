import QubitLab.Proofs.Exact.Unitary
import QubitLab.Proofs.Simulator.Running
import QubitLab.Proofs.Statevector.Relabelled

/-!
# Running a relabelled circuit

Two simulators are run side by side, one with a circuit and one with the relabelled
circuit, from buffers that are relabelled in the same way. They have the same noise
and the same generator. Every step of the first run is matched by a step of the
second one on the label of its qubit, and `Counterpart` is the relation between the
two that all of these steps keep.

Random numbers are drawn in the same order in both runs, since noise acts on the
qubits of a gate in the order in which the gate lists them, and measurements are made
in the order in which the circuit lists them. Whether something is done with a draw
is decided by a probability or by a norm, and these are sums over all amplitudes, in
another order in the second run. They are equal as soon as addition is associative
and commutative, which is asked for here and nowhere else.

That both runs give the same result does not say that they give one. That they do is
`succeeds_observed`, under the condition that is explained there.

## Main definitions

* `Simulator.Counterpart`: A simulator is another one, relabelled.

## Theorems

* `agree_applyGate`, `agree_applyNoise`, `agree_rescale`, `agree_observe`: One step.
* `agree_simulate`, `agree_measureCircuit`: A run, and the measurements.
* `relabelled_circuit_observed`: The relabelled circuit computes the same.
-/

namespace QubitLab

namespace Simulator

open Transition Circuit

variable {R G : Type} [Scalar R] {n : Nat} {mapping : List Nat}

/-- The simulator `t` is the simulator `s` of a register of `n` qubits, with its
    qubits relabelled. The snapshots are left open. -/
structure Counterpart (n : Nat) (mapping : List Nat) (s t : Simulator R G) : Prop where
  /-- The register of the first simulator. -/
  numQubits_left : s.numQubits = n
  /-- The register of the second simulator. -/
  numQubits_right : t.numQubits = n
  /-- The amplitudes are relabelled. -/
  buffer : Buffer.Relabelled n mapping s.buffer t.buffer
  /-- The noise is the same. -/
  noise : t.noise = s.noise
  /-- The random numbers to come are the same. -/
  generator : t.generator = s.generator

/-- Only the buffers have to be related again when both are changed. -/
theorem Counterpart.withBuffer {s t : Simulator R G} (h : Counterpart n mapping s t)
    {b b' : Buffer (Complex R)} (hb : Buffer.Relabelled n mapping b b') :
    Counterpart n mapping (s.withBuffer b) (t.withBuffer b') :=
  ⟨h.numQubits_left, h.numQubits_right, hb, h.noise, h.generator⟩

section Gates

/-- A gate on the one side and the gate on the labels of its qubits on the other. -/
theorem agree_applyGate (h : mapping.Perm (List.range n)) {g : Gate R} (hg : g.Shaped n) :
    Agree (Counterpart n mapping) (applyGate g : Step R G Unit)
      (applyGate (g.mapQubits (label mapping))) := by
  have hg' := Gate.Shaped.mapQubits (renaming_label h) hg
  unfold applyGate
  refine agree_reading_bind n (fun s t hst => ⟨hst.numQubits_left, hst.numQubits_right⟩) ?_
  refine agree_bind (agree_require ?_) fun _ => ?_
  · rw [(Gate.checkShape_eq_ok _ _).mpr hg, (Gate.checkShape_eq_ok _ _).mpr hg']
  · refine agree_bind (agree_note _ _) fun _ => ?_
    -- Where the one gate has no action, the other one fails with the same error.
    refine agree_require_bind (GateAction.mapQubits (label mapping))
      (Gate.action_mapQubits hg _) fun a ha => ?_
    exact agree_change fun s t hst =>
      hst.withBuffer (hst.buffer.apply h (Gate.fits_action hg ha))

theorem agree_applyMatrix (h : mapping.Perm (List.range n)) {q : Nat} (hq : q < n)
    (m : Matrix2 (Complex R)) :
    Agree (Counterpart n mapping) (applyMatrix q m : Step R G Unit)
      (applyMatrix (label mapping q) m) :=
  agree_change fun _ _ hst => hst.withBuffer (hst.buffer.applyMatrix h hq m)

/-- A qubit inside the register has a label inside the register. -/
theorem agree_checkQubit (h : mapping.Perm (List.range n)) {q : Nat} (hq : q < n) :
    Agree (Counterpart n mapping) (checkQubit q : Step R G Unit)
      (checkQubit (label mapping q)) := by
  intro s t hst
  unfold checkQubit require
  rw [hst.numQubits_left, hst.numQubits_right, Gate.checkRange_singleton hq,
    Gate.checkRange_singleton ((renaming_label h).lt q hq)]
  exact ⟨rfl, hst⟩

end Gates

section Sums

variable (h : mapping.Perm (List.range n)) (hassoc : ∀ a b c : R, a + b + c = a + (b + c))
  (hcomm : ∀ a b : R, a + b = b + a)

include h hassoc hcomm

/-- The squared norm is a sum over all amplitudes, in another order in the second run. -/
theorem agree_rescale : Agree (Counterpart n mapping) (rescale : Step R G Unit) rescale := by
  intro s t hst
  exact ⟨rfl, hst.withBuffer (hst.buffer.rescale h hassoc hcomm Scalar.zeroNorm).2⟩

theorem agree_applyCustomCorrection {q : Nat} (hq : q < n) (m : Matrix2 (Complex R)) :
    Agree (Counterpart n mapping) (applyCustomCorrection q m : Step R G Unit)
      (applyCustomCorrection (label mapping q) m) := by
  intro s t hst
  rcases (hst.buffer.applyMatrix h hq m).rescale h hassoc hcomm Scalar.zeroNorm with
    ⟨hnorm, hbuffer⟩
  rw [applyCustomCorrection_eq, applyCustomCorrection_eq, hnorm]
  -- The norm decides whether the correction is passed over, and both runs see the same.
  by_cases hle : Scalar.le ((s.buffer.applyMatrix q m).rescale Scalar.zeroNorm).1
      Scalar.zeroNorm = true
  · rw [if_pos hle, if_pos hle]
    exact ⟨rfl, hst⟩
  · rw [if_neg hle, if_neg hle]
    exact ⟨rfl, hst.withBuffer hbuffer⟩

/-- A correction, whatever it is, on the label of its qubit. -/
theorem agree_applyCorrection {q : Nat} (hq : q < n) (c : Correction R) :
    Agree (Counterpart n mapping) (applyCorrection q c : Step R G Unit)
      (applyCorrection (label mapping q) c) := by
  unfold applyCorrection
  refine agree_bind (agree_note _ _) fun _ => ?_
  cases c with
  | custom m => exact agree_applyCustomCorrection h hassoc hcomm hq m
  | decay =>
      refine agree_bind (agree_reading fun s t hst =>
        hst.buffer.probabilityOfOne_eq h hassoc hcomm hq) fun excited => ?_
      -- Both runs find the qubit excited, or neither does.
      by_cases hle : Scalar.le excited Scalar.zeroNorm = true
      · rw [if_pos hle, if_pos hle]
        exact agree_pure ()
      · rw [if_neg hle, if_neg hle]
        exact agree_bind (agree_applyMatrix h hq _) fun _ => agree_rescale h hassoc hcomm
  | bitFlip => exact agree_applyMatrix h hq _
  | bitPhaseFlip => exact agree_applyMatrix h hq _
  | phaseFlip => exact agree_applyMatrix h hq _

variable [RandomSource R G]

omit h hassoc hcomm in
/-- What the noise does is drawn without a look at the qubits. -/
theorem agree_sampleNoise (model : NoiseModel R) :
    Agree (Counterpart n mapping) (sampleNoise model : Step R G _) (sampleNoise model) := by
  intro s t hst
  unfold sampleNoise
  rw [hst.generator]
  exact ⟨rfl, hst.numQubits_left, hst.numQubits_right, hst.buffer, hst.noise, rfl⟩

/-- The noise on a qubit and on its label. -/
theorem agree_applyNoise {q : Nat} (hq : q < n) :
    Agree (Counterpart n mapping) (applyNoise q : Step R G Unit)
      (applyNoise (label mapping q)) := by
  unfold applyNoise
  refine agree_bind (agree_checkQubit h hq) fun _ => ?_
  refine agree_bind (agree_reading fun s t hst => hst.noise) fun noise => ?_
  cases noise with
  | none => exact agree_pure ()
  | some model =>
      refine agree_bind (agree_sampleNoise model) fun drawn => ?_
      cases drawn with
      | none => exact agree_pure ()
      | some c => exact agree_applyCorrection h hassoc hcomm hq c

theorem agree_applyNoisyGate {g : Gate R} (hg : g.Shaped n) :
    Agree (Counterpart n mapping) (applyNoisyGate g : Step R G Unit)
      (applyNoisyGate (g.mapQubits (label mapping))) := by
  unfold applyNoisyGate
  refine agree_bind (agree_applyGate h hg) fun _ => ?_
  -- The noise strikes on the qubits in the order of the gate, which renaming keeps.
  refine agree_bind (agree_reading fun s t hst => hst.noise) fun noise => ?_
  cases noise with
  | none => exact agree_pure ()
  | some model =>
      exact agree_forEach fun q hq => agree_applyNoise h hassoc hcomm (hg.1 q hq)

/-- A run of a circuit and of the relabelled one. -/
theorem agree_simulate {c : Circuit R} (hn : c.numQubits = n) (hc : c.WellFormed)
    (shots : Nat) :
    Agree (Counterpart n mapping) (simulate c shots : Step R G Unit)
      (simulate (c.mapQubits (label mapping)) shots) := by
  unfold simulate
  refine agree_bind (agree_require rfl) fun _ => ?_
  refine agree_reading_bind (.ok (), n) (fun s t hst => ⟨?_, ?_⟩) ?_
  · rw [checkWidth_eq_ok (Nat.le_of_eq (hn.trans hst.numQubits_left.symm)), hst.numQubits_left]
  · have hwidth : (c.mapQubits (label mapping)).numQubits ≤ t.numQubits :=
      Nat.le_of_eq (hn.trans hst.numQubits_right.symm)
    rw [checkWidth_eq_ok hwidth, hst.numQubits_right]
  · refine agree_bind (agree_require rfl) fun _ => ?_
    refine agree_bind (agree_note _ _) fun _ => ?_
    refine agree_bind (agree_forEach fun g hg => ?_) fun _ => ?_
    · exact agree_applyNoisyGate h hassoc hcomm (hn ▸ (hc.1 g hg).shaped)
    · refine agree_bind (agree_rescale h hassoc hcomm) fun _ => ?_
      refine agree_bind (agree_reading fun s t hst => ?_) fun _ => agree_note _ _
      exact hst.buffer.normSq_eq h hassoc hcomm

end Sums

section Measurement

variable (h : mapping.Perm (List.range n)) (hassoc : ∀ a b c : R, a + b + c = a + (b + c))
  (hcomm : ∀ a b : R, a + b = b + a) [RandomSource R G]

include h hassoc hcomm

omit [RandomSource R G] in
/-- A collapse onto one outcome, of a qubit and of its label. -/
theorem agree_collapseTo {q : Nat} (hq : q < n) (outcome : Bool) (probability : R) :
    Agree (Counterpart n mapping) (collapseTo q outcome probability : Step R G Unit)
      (collapseTo (label mapping q) outcome probability) := by
  unfold collapseTo
  by_cases hlt : Scalar.lt Scalar.zeroNorm probability = true
  · rw [if_pos hlt, if_pos hlt]
    exact agree_change fun s t hst => hst.withBuffer (hst.buffer.collapse h hq _ _)
  · rw [if_neg hlt, if_neg hlt]
    refine agree_bind (agree_note _ _) fun _ => ?_
    refine agree_bind (agree_change fun s t hst => ?_) fun _ => agree_rescale h hassoc hcomm
    exact hst.withBuffer (hst.buffer.collapse h hq _ _)

omit h hassoc hcomm in
theorem agree_drawUnit :
    Agree (Counterpart n mapping) (drawUnit : Step R G R) drawUnit := by
  intro s t hst
  unfold drawUnit
  rw [hst.generator]
  exact ⟨rfl, hst.numQubits_left, hst.numQubits_right, hst.buffer, hst.noise, rfl⟩

/-- A qubit and its label read alike. -/
theorem agree_observe {q : Nat} (hq : q < n) :
    Agree (Counterpart n mapping) (observe q : Step R G Bool) (observe (label mapping q)) := by
  unfold observe
  refine agree_bind (agree_reading fun s t hst =>
    hst.buffer.probabilityOfOne_eq h hassoc hcomm hq) fun one => ?_
  -- The draw is the same, and so is the number that it is compared with.
  refine agree_bind agree_drawUnit fun r => ?_
  refine agree_bind (agree_reading fun s t hst => ?_) fun probability => ?_
  · rw [hst.buffer.normSq_eq h hassoc hcomm]
  · exact agree_bind (agree_collapseTo h hassoc hcomm hq _ _) fun _ => agree_pure _

theorem agree_measure {q : Nat} (hq : q < n) :
    Agree (Counterpart n mapping) (measure q : Step R G Bool) (measure (label mapping q)) :=
  agree_bind (agree_checkQubit h hq) fun _ => agree_observe h hassoc hcomm hq

/-- Measurements are made in the order of the circuit, and relabelling keeps their classical
    bits. -/
theorem agree_readInto {measurements : List (Nat × Nat)}
    (hm : ∀ m ∈ measurements, m.1 < n) (register : Bitstring) :
    Agree (Counterpart n mapping) (readInto measurements register : Step R G Bitstring)
      (readInto (measurements.map fun m => (label mapping m.1, m.2)) register) := by
  induction measurements generalizing register with
  | nil => exact agree_pure register
  | cons m rest ih =>
      refine agree_bind (agree_measure h hassoc hcomm (hm m List.mem_cons_self))
        fun outcome => ?_
      refine agree_bind (agree_require rfl) fun register => ?_
      exact ih (fun p hp => hm p (List.mem_cons_of_mem m hp)) register

theorem agree_measureCircuit {c : Circuit R} (hn : c.numQubits = n) (hc : c.WellFormed) :
    Agree (Counterpart n mapping) (measureCircuit c : Step R G Bitstring)
      (measureCircuit (c.mapQubits (label mapping))) :=
  agree_readInto h hassoc hcomm (fun m hm => hn ▸ (hc.2 m hm).1) _

/-- A run and the measurements behind it. -/
theorem agree_observed {c : Circuit R} (hn : c.numQubits = n) (hc : c.WellFormed) :
    Agree (Counterpart n mapping) (observed c : Step R G Bitstring)
      (observed (c.mapQubits (label mapping))) :=
  agree_bind (agree_simulate h hassoc hcomm hn hc 1)
    fun _ => agree_measureCircuit h hassoc hcomm hn hc

end Measurement

/-- A circuit that passes its check can be relabelled by every permutation of its
    qubits, and the relabelled circuit computes the same. Run once from the relabelled
    buffer and then measured, it gives the result of the circuit, having made the same
    draws, and it leaves the relabelled buffer behind. The result is a register, as
    soon as the matrices of `iswap` and `sqiswap` pass for unitary. -/
theorem relabelled_circuit_observed [RandomSource R G]
    (hassoc : ∀ a b c : R, a + b + c = a + (b + c)) (hcomm : ∀ a b : R, a + b = b + a)
    {c : Circuit R} (hc : c.validate = .ok ()) {mapping : List Nat}
    (h : mapping.Perm (List.range c.numQubits)) {s : Simulator R G}
    (hs : s.numQubits = c.numQubits) {u : Buffer (Complex R)}
    (hu : Buffer.Relabelled c.numQubits mapping s.buffer u) :
    ∃ c', Answers (relabel mapping) c () c' ∧
      (observed c' (s.withBuffer u)).result = (observed c s).result ∧
      (observed c' (s.withBuffer u)).state.generator = (observed c s).state.generator ∧
      Buffer.Relabelled c.numQubits mapping (observed c s).state.buffer
        (observed c' (s.withBuffer u)).state.buffer ∧
      ((∀ g ∈ c.gates, g.FixedUnitary) →
        ∃ register, (observed c' (s.withBuffer u)).result = .ok register) := by
  have hwell := (validate_eq_ok c).mp hc
  have hst : Counterpart c.numQubits mapping s (s.withBuffer u) := ⟨hs, hs, hu, rfl, rfl⟩
  rcases agree_observed h hassoc hcomm rfl hwell s (s.withBuffer u) hst with ⟨hresult, hstate⟩
  refine ⟨c.mapQubits (label mapping), answers_relabel hwell h, hresult, hstate.generator,
    hstate.buffer, fun hfixed => ?_⟩
  rcases succeeds_observed rfl hwell hfixed s hs with ⟨register, t, ⟨hok, -⟩, -⟩
  exact ⟨register, hresult.trans hok⟩

/-- A circuit with a matrix over two qubits that are not in order. -/
def handover : Circuit ℝ where
  numQubits := 2
  numClbits := 2
  gates :=
    [⟨.h, [1], [], none⟩, ⟨.iswap, [1, 0], [], none⟩, ⟨.crx, [0, 1], [1], none⟩]
  measurements := [(1, 0), (0, 1)]
  name := none

/-- A noisy simulator whose first qubit is one. -/
noncomputable def excited : Simulator ℝ Exact.Tape where
  numQubits := 2
  buffer := #[0, 1, 0, 0]
  snapshots := .empty
  noise := some ⟨.bitFlip, Scalar.half, none⟩
  generator := ⟨[0, 1, 0, 1, 1, 0, 1], []⟩

theorem swapped_handover_observed :
    ∃ c' register, Answers (relabel [1, 0]) handover () c' ∧
      (observed handover excited).result = .ok register ∧
      (observed c' (excited.withBuffer #[0, 0, 1, 0])).result = .ok register ∧
      Buffer.Relabelled 2 [1, 0] (observed handover excited).state.buffer
        (observed c' (excited.withBuffer #[0, 0, 1, 0])).state.buffer := by
  have hperm : [1, 0].Perm (List.range handover.numQubits) := by decide
  have hvalid : handover.validate = .ok () := rfl
  have hbuffer : Buffer.Relabelled 2 [1, 0] excited.buffer #[0, 0, 1, 0] := by
    refine ⟨rfl, rfl, fun i hi => ?_⟩
    change i < 4 at hi
    interval_cases i <;> rfl
  rcases relabelled_circuit_observed add_assoc add_comm hvalid hperm rfl hbuffer with
    ⟨c', hanswers, hresult, -, hstate, hsucceeds⟩
  rcases hsucceeds fun g _ => g.fixedUnitary with ⟨register, hregister⟩
  exact ⟨c', register, hanswers, hresult.symm.trans hregister, hregister, hstate⟩

end Simulator

end QubitLab
