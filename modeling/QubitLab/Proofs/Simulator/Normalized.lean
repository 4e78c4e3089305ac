import QubitLab.Proofs.Invariant
import QubitLab.Proofs.Simulator.Operations
import QubitLab.Proofs.Simulator.Running
import QubitLab.Proofs.Statevector.Norm
import QubitLab.Proofs.Statevector.Snapshots

/-!
# The norm stays one

With exact arithmetic a simulator never leaves the unit sphere. Its gates are isometries.
The corrections of the noise that are not are followed by a division by the norm, or are
passed over when there is too little left to divide. Reading a qubit divides by the
probability of what was read. An operation that fails stops between two such steps, and a
snapshot is a copy of a buffer that had the norm one when it was taken.

Two conditions are needed. A custom gate has to be unitary without the tolerance that it is
accepted with. And no outcome may be read whose probability counts as zero, because the
norm that is left then counts as zero as well, and is not divided by. The simulator notes
such an outcome down, so the condition is one on its journal, and `likely_observe` says what
it comes to for a single reading.

## Main definitions

* `Simulator.Normalized`: The buffer and all snapshots have the norm one.
* `SimulatorRecord.Likely`: A record of anything but an outcome that should not be.
* `Simulator.readOutcome`, `Simulator.outcomeProbability`: What is read next, and how likely
  that is.

## Theorems

* `keeps_applyGate`, `keeps_applyNoise`, `keeps_observe`, …: One step.
* `likely_observe`: When a reading is noted down as unlikely.
* `keeps_perform`: One operation.
* `operations_keep_norm`: Every list of operations after a setup.
-/

namespace QubitLab

/-- The record does not say that an outcome was read whose probability counts as zero. -/
def SimulatorRecord.Likely {R : Type} : SimulatorRecord R → Prop
  | .unlikelyOutcome _ _ _ => False
  | _ => True

namespace Simulator

open Transition

variable {G : Type} {n : Nat}

/-- The register has `n` qubits, and the amplitudes and all copies of them have the
    norm one. -/
structure Normalized (n : Nat) (s : Simulator ℝ G) : Prop where
  /-- The width of the register. -/
  width : s.HasWidth n
  /-- The amplitudes. -/
  buffer : s.buffer.IsState n
  /-- The snapshots. -/
  snapshots : ∀ e ∈ s.snapshots.entries, e.2.IsState n

/-- Another state in the buffer leaves the snapshots as they are. -/
theorem Normalized.withBuffer {s : Simulator ℝ G} (hs : s.Normalized n)
    {b : Buffer (Complex ℝ)} (hb : b.IsState n) : (s.withBuffer b).Normalized n :=
  ⟨hs.width, hb, hs.snapshots⟩

/-- The step keeps the norm, unless an outcome is read that should not be. -/
abbrev KeepsNorm {α : Type} (n : Nat) (step : Step ℝ G α) : Prop :=
  Keeps SimulatorRecord.Likely (Normalized n) step

section Gates

/-- An exactly unitary gate acts by an isometry. Of the fixed gates this is known, and of a
    custom one it is asked. -/
theorem isometric_action {g : Gate ℝ} (hexact : g.ExactlyUnitary) (hg : g.Shaped n)
    {a : GateAction (Complex ℝ)} (h : g.action = .ok a) : a.Isometric := by
  rcases Gate.action_eq_ok hg h with
    ⟨_, _, _, -, rfl⟩ | ⟨_, _, m, -, hm, rfl⟩ | ⟨m, hm, -, rfl⟩
  · trivial
  · exact Unitary.isometry_of_targetMatrix? hm
  · exact hexact.orthonormal hm

/-- A gate keeps the norm, whether it is accepted or not. -/
theorem keeps_applyGate {g : Gate ℝ} (hexact : g.ExactlyUnitary) :
    KeepsNorm n (applyGate g : Step ℝ G Unit) := by
  unfold applyGate
  refine keeps_reading_bind (V := fun width => width = n) (fun s hs => hs.width) fun width hw => ?_
  refine keeps_require_bind fun _ hcheck => keeps_bind (keeps_note _) fun _ => ?_
  refine keeps_require_bind fun a ha => ?_
  -- By the time the buffer changes, the gate has passed its checks.
  have hg : g.Shaped n := hw ▸ (Gate.checkShape_eq_ok g width).mp hcheck
  exact keeps_change fun s hs =>
    hs.withBuffer (hs.buffer.apply (Gate.fits_action hg ha) (isometric_action hexact hg ha))

/-- So does a matrix with orthonormal columns. -/
theorem keeps_applyMatrix {q : Nat} (hq : q < n) {m : Matrix2 (Complex ℝ)} (hm : m.Isometry) :
    KeepsNorm n (applyMatrix q m : Step ℝ G Unit) :=
  keeps_change fun _ hs => hs.withBuffer (hs.buffer.applyMatrix hq hm)

/-- A state can be divided by its norm. -/
theorem keeps_rescale : KeepsNorm n (rescale : Step ℝ G Unit) :=
  keeps_of_state fun _ hs => hs.withBuffer hs.buffer.rescale

/-- What comes after the check of a qubit may rely on it. -/
theorem keeps_checkQubit_bind {α : Type} {q : Nat} {k : Unit → Step ℝ G α}
    (hk : q < n → KeepsNorm n (k ())) : KeepsNorm n (checkQubit q >>= k) := by
  intro s hs
  refine keeps_require_bind (fun _ hcheck => hk ?_) s hs
  have hq := (Gate.checkRange_eq_ok s.numQubits [q]).mp hcheck q (List.mem_singleton_self q)
  exact hs.width ▸ hq

end Gates

section Noise

/-- A matrix of the user's own is followed by a division, or passed over. -/
theorem keeps_applyCustomCorrection (q : Nat) (m : Matrix2 (Complex ℝ)) :
    KeepsNorm n (applyCustomCorrection q m : Step ℝ G Unit) := by
  refine keeps_of_state fun s hs => ?_
  rw [applyCustomCorrection_eq, Buffer.fst_rescale]
  -- The matrix is any, so all depends on what the correction itself asks of the norm.
  by_cases hle : Scalar.le (s.buffer.applyMatrix q m).normSq Scalar.zeroNorm = true
  · rw [if_pos hle]
    exact hs
  · rw [if_neg hle]
    rw [Exact.le_iff, not_le] at hle
    have hsize := (Buffer.size_applyMatrix q m).trans hs.buffer.size
    exact hs.withBuffer (Buffer.isState_rescale hsize hle)

/-- A qubit decays when it is excited, and then enough is left to divide by. -/
theorem keeps_decay {q : Nat} (hq : q < n) :
    KeepsNorm n (applyCorrection q .decay : Step ℝ G Unit) := by
  unfold applyCorrection
  refine keeps_bind (keeps_note _) fun _ => keeps_of_state fun s hs => ?_
  change Normalized n ((if Scalar.le (s.buffer.probabilityOfOne q) Scalar.zeroNorm = true
    then pure ()
    else (applyMatrix q Unitary.lowering >>= fun _ => rescale) : Step ℝ G Unit) s).state
  by_cases hle : Scalar.le (s.buffer.probabilityOfOne q) Scalar.zeroNorm = true
  · rw [if_pos hle]
    exact hs
  · rw [if_neg hle]
    rw [Exact.le_iff, not_le] at hle
    exact hs.withBuffer (hs.buffer.decay hq hle)

/-- The corrections that are not followed by a division are isometries. -/
theorem isometry_of_needsRescaling {c : Correction ℝ} (h : c.needsRescaling = false) :
    c.matrix.Isometry := by
  cases c with
  | bitFlip => exact Unitary.isometry_pauliX
  | bitPhaseFlip => exact Unitary.isometry_pauliY
  | phaseFlip => exact Unitary.isometry_pauliZ
  | decay => exact absurd h (by decide)
  | custom m => exact absurd h (by simp [Correction.needsRescaling])

/-- Every correction keeps the norm, each for its own reason. -/
theorem keeps_applyCorrection {q : Nat} (hq : q < n) (c : Correction ℝ) :
    KeepsNorm n (applyCorrection q c : Step ℝ G Unit) := by
  have hmatrix : c.needsRescaling = false →
      KeepsNorm n (note (.corrected c q) >>= fun _ => applyMatrix q c.matrix : Step ℝ G Unit) :=
    fun h => keeps_bind (keeps_note _) fun _ => keeps_applyMatrix hq (isometry_of_needsRescaling h)
  cases c with
  | decay => exact keeps_decay hq
  | custom m => exact keeps_bind (keeps_note _) fun _ => keeps_applyCustomCorrection q m
  | bitFlip => exact hmatrix rfl
  | bitPhaseFlip => exact hmatrix rfl
  | phaseFlip => exact hmatrix rfl

variable [RandomSource ℝ G]

theorem keeps_sampleNoise (model : NoiseModel ℝ) :
    KeepsNorm n (sampleNoise model : Step ℝ G _) :=
  keeps_of_state fun _ hs => ⟨hs.width, hs.buffer, hs.snapshots⟩

/-- Noise keeps the norm, whatever is drawn. -/
theorem keeps_applyNoise (q : Nat) : KeepsNorm n (applyNoise q : Step ℝ G Unit) := by
  unfold applyNoise
  refine keeps_checkQubit_bind fun hq => keeps_bind (keeps_reading _) fun noise => ?_
  cases noise with
  | none => exact keeps_pure ()
  | some model =>
      refine keeps_bind (keeps_sampleNoise model) fun drawn => ?_
      cases drawn with
      | none => exact keeps_pure ()
      | some c => exact keeps_applyCorrection hq c

/-- A gate and the noise behind it keep the norm. -/
theorem keeps_applyNoisyGate {g : Gate ℝ} (hexact : g.ExactlyUnitary) :
    KeepsNorm n (applyNoisyGate g : Step ℝ G Unit) := by
  unfold applyNoisyGate
  refine keeps_bind (keeps_applyGate hexact) fun _ => keeps_bind (keeps_reading _) fun noise => ?_
  cases noise with
  | none => exact keeps_pure ()
  | some model => exact keeps_forEach fun q _ => keeps_applyNoise q

/-- A run keeps the norm at every gate, and so it does where it stops. -/
theorem keeps_simulate {c : Circuit ℝ} (hexact : ∀ g ∈ c.gates, g.ExactlyUnitary) (shots : Nat) :
    KeepsNorm n (simulate c shots : Step ℝ G Unit) := by
  unfold simulate
  refine keeps_require_bind fun _ _ => keeps_bind (keeps_reading _) fun _ => ?_
  refine keeps_require_bind fun _ _ => keeps_bind (keeps_note _) fun _ => ?_
  refine keeps_bind (keeps_forEach fun g hg => keeps_applyNoisyGate (hexact g hg)) fun _ => ?_
  exact keeps_bind keeps_rescale fun _ => keeps_bind (keeps_reading _) fun _ => keeps_note _

end Noise

section Measurement

variable [RandomSource ℝ G]

/-- What would be read of a qubit now. -/
noncomputable def readOutcome (q : Nat) (s : Simulator ℝ G) : Bool :=
  Scalar.lt (RandomSource.unit s.generator).1 (s.buffer.probabilityOfOne q)

/-- The probability of what would be read of a qubit now. -/
noncomputable def outcomeProbability (q : Nat) (s : Simulator ℝ G) : ℝ :=
  if readOutcome q s = true then s.buffer.probabilityOfOne q
  else s.buffer.normSq - s.buffer.probabilityOfOne q

/-- The simulator after a draw from the unit interval. -/
def drawn (s : Simulator ℝ G) : Simulator ℝ G :=
  { s with generator := (RandomSource.unit s.generator).2 }

/-- A reading is a draw and a collapse to what it says. -/
theorem observe_eq (q : Nat) (s : Simulator ℝ G) :
    observe q s = (collapseTo q (readOutcome q s) (outcomeProbability q s) >>=
      fun _ => pure (readOutcome q s) : Step ℝ G Bool) s.drawn := rfl

/-- An outcome that is likely enough is collapsed to by its own probability. -/
theorem observe_of_lt {q : Nat} {s : Simulator ℝ G}
    (h : Scalar.zeroNorm < outcomeProbability q s) :
    observe q s = ⟨.ok (readOutcome q s), s.drawn.withBuffer
      (s.buffer.collapse q (readOutcome q s) (outcomeProbability q s)), []⟩ := by
  rw [observe_eq, collapseTo, if_pos ((Exact.lt_iff _ _).mpr h)]
  rfl

/-- Any other outcome is noted down. -/
theorem mem_observe_of_not_lt {q : Nat} {s : Simulator ℝ G}
    (h : ¬ Scalar.zeroNorm < outcomeProbability q s) :
    .unlikelyOutcome q (readOutcome q s) (outcomeProbability q s) ∈ (observe q s).journal := by
  rw [observe_eq, collapseTo, if_neg (fun hlt => h ((Exact.lt_iff _ _).mp hlt))]
  exact List.mem_append_left _ List.mem_cons_self

/-- The journal of a reading is fine exactly when the outcome has a probability that does
    not count as zero. -/
theorem likely_observe (q : Nat) (s : Simulator ℝ G) :
    (∀ r ∈ (observe q s).journal, r.Likely) ↔ Scalar.zeroNorm < outcomeProbability q s := by
  constructor
  · intro h
    by_contra hlt
    exact h _ (mem_observe_of_not_lt hlt)
  · intro h
    rw [observe_of_lt h]
    intro r hr
    exact absurd hr List.not_mem_nil

/-- A reading of a likely outcome notes nothing down. -/
theorem journal_measure {q : Nat} {s : Simulator ℝ G} (hq : q < s.numQubits)
    (hp : Scalar.zeroNorm < outcomeProbability q s) : (perform (.measure q) s).journal = [] := by
  have hcheck : (checkQubit q : Step ℝ G Unit) s = ⟨.ok (), s, []⟩ := by
    change (⟨Gate.checkRange s.numQubits [q], s, []⟩ : Outcome _ _ _ _) = _
    rw [Gate.checkRange_singleton hq]
  change (andThen (andThen (checkQubit q) fun _ => observe q) (fun _ => answer ()) s).journal = []
  unfold andThen
  rw [hcheck]
  dsimp only
  rw [observe_of_lt hp]
  rfl

/-- In the ground state a qubit is read as zero for certain. -/
theorem outcomeProbability_ground {s : Simulator ℝ Exact.Tape} (hbuf : s.buffer = Buffer.ground 2)
    (htape : s.generator = ⟨[], []⟩) : outcomeProbability 0 s = 1 := by
  have hone : s.buffer.probabilityOfOne 0 = 0 := by
    rw [hbuf, Buffer.probabilityOfOne_eq_sum]
    simp [Buffer.ground, Buffer.amplitude, Finset.sum_range_succ]
  have hdraw : (RandomSource.unit s.generator).1 = (0 : ℝ) := by
    rw [htape]
    rfl
  -- The least draw there is does not lie below zero.
  have hread : readOutcome 0 s = false := by
    rw [readOutcome, hone, hdraw, ← Bool.not_eq_true, Exact.lt_iff]
    exact lt_irrefl 0
  rw [outcomeProbability, hread, if_neg Bool.false_ne_true, hone, hbuf,
    Buffer.normSq_ground (by decide), sub_zero]

/-- A reading keeps the norm if its journal does not say otherwise. -/
theorem keeps_observe (q : Nat) : KeepsNorm n (observe q : Step ℝ G Bool) := by
  intro s hs hlikely
  have hp := (likely_observe q s).mp hlikely
  rw [observe_of_lt hp]
  exact ⟨hs.width, hs.buffer.collapse q hp rfl, hs.snapshots⟩

theorem keeps_measure (q : Nat) : KeepsNorm n (measure q : Step ℝ G Bool) :=
  keeps_checkQubit_bind fun _ => keeps_observe q

/-- Reading all qubits keeps the norm from one to the next. -/
theorem keeps_measureAll : KeepsNorm n (measureAll : Step ℝ G Bitstring) :=
  fun s => keeps_collect (fun q _ => keeps_observe q) s

/-- The measurements of a circuit keep the norm, up to the one that fails. -/
theorem keeps_readInto (measurements : List (Nat × Nat)) (register : Bitstring) :
    KeepsNorm n (readInto measurements register : Step ℝ G Bitstring) := by
  -- The induction is on the measurements that are left, into any register.
  induction measurements generalizing register with
  | nil => exact keeps_pure register
  | cons m rest ih =>
      exact keeps_bind (keeps_measure m.1) fun _ => keeps_require_bind fun register _ => ih register

theorem keeps_countOnce (counts : Counts) : KeepsNorm n (countOnce counts : Step ℝ G Counts) :=
  keeps_bind keeps_measureAll fun _ => keeps_pure _

/-- Shots keep the norm, however many there are. -/
theorem keeps_measurementStats (shots : Nat) :
    KeepsNorm n (measurementStats shots : Step ℝ G Counts) :=
  keeps_require_bind fun _ _ => keeps_repeated keeps_countOnce shots _

omit [RandomSource ℝ G] in
/-- The ground state has the norm one. -/
theorem keeps_reset : KeepsNorm n (reset : Step ℝ G Unit) :=
  keeps_change fun _ hs => hs.withBuffer (Buffer.isState_ground hs.buffer.size)

/-- Shots of a circuit keep the norm. -/
theorem keeps_sampleCounts {c : Circuit ℝ} (hexact : ∀ g ∈ c.gates, g.ExactlyUnitary)
    (shots : Nat) : KeepsNorm n (sampleCounts c shots : Step ℝ G Counts) := by
  refine keeps_require_bind fun _ _ => keeps_repeated (fun counts => ?_) shots _
  exact keeps_bind keeps_reset fun _ => keeps_bind (keeps_simulate hexact 1) fun _ =>
    keeps_countOnce counts

end Measurement

section Bookkeeping

/-- The copy that is taken has the norm of the buffer. -/
theorem keeps_saveState (name : String) : KeepsNorm n (saveState name : Step ℝ G Unit) := by
  refine keeps_bind (keeps_note _) fun _ => keeps_change fun s hs => ?_
  refine ⟨hs.width, hs.buffer, fun e he => ?_⟩
  rcases Snapshots.mem_insertEntry he with rfl | he
  · exact hs.buffer
  · exact hs.snapshots e he

/-- A snapshot that is found has the norm one. -/
theorem Normalized.find? {s : Simulator ℝ G} (hs : s.Normalized n) {name : String}
    {b : Buffer (Complex ℝ)} (h : s.snapshots.find? name = some b) : b.IsState n := by
  rcases Option.map_eq_some_iff.mp h with ⟨e, he, rfl⟩
  exact hs.snapshots e (List.mem_of_find?_eq_some he)

/-- What is put back was a state when it was taken. -/
theorem keeps_loadState (name : String) : KeepsNorm n (loadState name : Step ℝ G Unit) := by
  unfold loadState
  refine keeps_reading_bind (V := fun found => ∀ b, found = some b → b.IsState n)
    (fun s hs b h => hs.find? h) fun found hfound => ?_
  -- What is found in the store is a state, and without it nothing changes.
  cases found with
  | none => exact keeps_fail _
  | some b =>
      exact keeps_bind (keeps_change fun s hs => hs.withBuffer (hfound b rfl)) fun _ =>
        keeps_note _

/-- Without snapshots there is less to be kept. -/
theorem keeps_clearSnapshots : KeepsNorm n (clearSnapshots : Step ℝ G Unit) := by
  refine keeps_bind (keeps_reading _) fun _ => keeps_bind (keeps_note _) fun _ => ?_
  refine keeps_change fun s hs => ⟨hs.width, hs.buffer, fun e he => ?_⟩
  exact absurd he List.not_mem_nil

theorem keeps_setNoise (model : NoiseModel ℝ) : KeepsNorm n (setNoise model : Step ℝ G Unit) :=
  keeps_bind (keeps_note _) fun _ =>
    keeps_change fun _ hs => ⟨hs.width, hs.buffer, hs.snapshots⟩

theorem keeps_setCustomNoise (rows : Rows (Complex ℝ)) :
    KeepsNorm n (setCustomNoise rows : Step ℝ G Unit) := by
  unfold setCustomNoise
  refine keeps_bind (keeps_reading _) fun noise => ?_
  cases noise with
  | none => exact keeps_fail _
  | some model => exact keeps_require_bind fun model _ => keeps_setNoise model

end Bookkeeping

section Operations

variable [RandomSource ℝ G]

omit [RandomSource ℝ G] in
theorem keeps_unanswered {α : Type} {step : Step ℝ G α} (h : KeepsNorm n step) :
    KeepsNorm n (unanswered step) :=
  keeps_bind h fun _ => keeps_pure ()

/-- Every operation keeps the norm. -/
theorem keeps_perform {op : Operation ℝ} (hexact : ∀ g ∈ op.gates, g.ExactlyUnitary) :
    KeepsNorm n (perform op : Step ℝ G Unit) := by
  cases op with
  | applyGate g => exact keeps_applyGate (hexact g (List.mem_singleton_self g))
  | applyNoise q => exact keeps_applyNoise q
  | simulate c shots => exact keeps_simulate hexact shots
  | sampleCounts c shots => exact keeps_unanswered (keeps_sampleCounts hexact shots)
  | measure q => exact keeps_unanswered (keeps_measure q)
  | measureAll => exact keeps_unanswered keeps_measureAll
  | measureCircuit c => exact keeps_unanswered (keeps_readInto c.measurements _)
  | measurementStats shots => exact keeps_unanswered (keeps_measurementStats shots)
  | reset => exact keeps_reset
  | saveState name => exact keeps_saveState name
  | loadState name => exact keeps_loadState name
  | clearSnapshots => exact keeps_clearSnapshots
  | setNoiseModel channel rate => exact keeps_require_bind fun model _ => keeps_setNoise model
  | setCustomNoise rows => exact keeps_setCustomNoise rows
  | clearNoise =>
      exact keeps_bind (keeps_note _) fun _ =>
        keeps_change fun _ hs => ⟨hs.width, hs.buffer, hs.snapshots⟩
  | setSeed seed => exact keeps_change fun _ hs => ⟨hs.width, hs.buffer, hs.snapshots⟩

/-- What one operation keeps, a list of them keeps from the first to the last. -/
theorem normalized_outcomes {ops : List (Operation ℝ)} {s : Simulator ℝ G}
    (hs : s.Normalized n) (hexact : ∀ op ∈ ops, ∀ g ∈ op.gates, g.ExactlyUnitary)
    (hlikely : ∀ o ∈ outcomes ops s, ∀ r ∈ o.journal, r.Likely) :
    ∀ o ∈ outcomes ops s, o.state.Normalized n := by
  induction ops generalizing s with
  | nil =>
      intro o ho
      exact absurd ho List.not_mem_nil
  | cons op rest ih =>
      -- Whether it answers or fails, the operation leaves a state to go on from.
      have hfirst := keeps_perform (hexact op List.mem_cons_self) s hs
        (hlikely _ List.mem_cons_self)
      intro o ho
      rcases List.mem_cons.mp ho with rfl | ho
      · exact hfirst
      · exact ih hfirst (fun op' h => hexact op' (List.mem_cons_of_mem op h))
          (fun o' h => hlikely o' (List.mem_cons_of_mem _ h)) o ho

omit [RandomSource ℝ G] in
/-- A simulator starts with the norm one. -/
theorem Fresh.normalized {s : Simulator ℝ G} (hs : s.Fresh) : s.Normalized s.numQubits := by
  refine ⟨rfl, ?_, fun e he => ?_⟩
  · rw [hs.1]
    exact Buffer.isState_ground rfl
  · rw [hs.2] at he
    exact absurd he List.not_mem_nil

/-- After a setup, and after every operation that follows it, the amplitudes and all
    snapshots have the norm one, if the custom gates are unitary with nothing rounded and no
    outcome is read whose probability counts as zero. -/
theorem operations_keep_norm {setup : Setup ℝ G} (hsetup : IsSetup setup) {s : Simulator ℝ G}
    (hs : (setup ()).result = .ok s) (ops : List (Operation ℝ))
    (hexact : ∀ op ∈ ops, ∀ g ∈ op.gates, g.ExactlyUnitary)
    (hlikely : ∀ o ∈ outcomes ops s, ∀ r ∈ o.journal, r.Likely) :
    s.Normalized s.numQubits ∧ ∀ o ∈ outcomes ops s, o.state.Normalized s.numQubits := by
  have hstart := (hsetup.fresh hs).normalized
  exact ⟨hstart, normalized_outcomes hstart hexact hlikely⟩

/-- A snapshot is taken and put back behind a gate, and then the qubit is read. -/
def restoredAndRead : List (Operation ℝ) :=
  [.saveState "zero", .applyGate ⟨.h, [0], [], none⟩, .loadState "zero", .measure 0]

theorem restoredAndRead_keeps_norm :
    (started ⟨[], []⟩ 1 : Simulator ℝ Exact.Tape).Normalized 1 ∧
      ∀ o ∈ outcomes restoredAndRead (started (⟨[], []⟩ : Exact.Tape) 1),
        o.state.Normalized 1 := by
  have hsetup : (create (fun _ => true) (⟨[], []⟩ : Exact.Tape) 1 ()).result
      = .ok (started ⟨[], []⟩ 1 : Simulator ℝ Exact.Tape) :=
    create_eq_ok_iff.mpr ⟨Nat.zero_lt_one, rfl, rfl, rfl⟩
  -- None of the gates is a custom one.
  have hexact : ∀ op ∈ restoredAndRead, ∀ g ∈ op.gates, g.ExactlyUnitary := by
    intro op hop g hg hk
    simp only [restoredAndRead, List.mem_cons, List.not_mem_nil, or_false] at hop
    rcases hop with rfl | rfl | rfl | rfl <;> simp [Operation.gates] at hg
    rw [hg] at hk
    exact absurd hk (by decide)
  have hlikely : ∀ o ∈ outcomes restoredAndRead (started (⟨[], []⟩ : Exact.Tape) 1),
      ∀ r ∈ o.journal, r.Likely := by
    have hp : Scalar.zeroNorm < outcomeProbability 0
        { (started ⟨[], []⟩ 1 : Simulator ℝ Exact.Tape) with
          snapshots := ⟨[("zero", Buffer.ground 2)]⟩ } := by
      rw [outcomeProbability_ground rfl rfl, Scalar.zeroNorm, Exact.ofNat_eq]
      norm_num
    intro o ho r hr
    simp only [restoredAndRead, outcomes, List.mem_cons, List.not_mem_nil, or_false] at ho
    rcases ho with rfl | rfl | rfl | rfl
    · exact List.mem_singleton.mp hr ▸ trivial
    · exact List.mem_singleton.mp hr ▸ trivial
    · exact List.mem_singleton.mp hr ▸ trivial
    · -- The snapshot is back, and the ground state is read as zero.
      have hnone := journal_measure (q := 0) Nat.zero_lt_one hp
      exact absurd (hnone ▸ hr) List.not_mem_nil
  exact operations_keep_norm (.create _ _ 1) hsetup restoredAndRead hexact hlikely

end Operations

end Simulator

end QubitLab
