import QubitLab.Proofs.Exact.Scalar
import QubitLab.Proofs.Simulator.Lockstep
import QubitLab.Proofs.Simulator.Stopping

/-!
# Noise that never strikes

A noise model whose rate is zero is asked after every gate, and its answer is always that
nothing goes wrong. It gives this answer before it draws a random number, so the simulator
goes on exactly as one without noise does: with the same results and errors, the same
amplitudes and the same random numbers to come.

The one thing that is different behind a gate is that the qubits are checked once more. They
have passed this check before the gate, so it cannot fail. A gate that is refused is refused
before the noise is asked.

Nothing is asked of the arithmetic, so this holds of rounded numbers as well, bit for bit.

## Main definitions

* `Simulator.Quiet`: Noise, if there is any, never strikes.
* `Simulator.Muted`: A simulator without noise, and the same one with noise of rate zero.

## Theorems

* `applyNoise_of_quiet`, `applyNoisyGate_of_quiet`: What is left of the noise.
* `agree_replied`: One operation on both simulators.
* `zero_rate_invisible`: All operations that do not set the noise.
-/

namespace QubitLab

/-- The operation sets the noise, or takes it away. -/
def Operation.setsNoise {R : Type} : Operation R → Bool
  | setNoiseModel _ _ | setCustomNoise _ | clearNoise => true
  | _ => false

namespace Simulator

open Transition

variable {R G : Type} [Scalar R]

/-- The noise, if there is any, has a rate that is not above zero. -/
def Quiet (s : Simulator R G) : Prop :=
  ∀ model, s.noise = some model → Scalar.le model.rate 0 = true

section Steps

variable [RandomSource R G]

/-- The model answers before it draws. -/
theorem sampleNoise_of_quiet {model : NoiseModel R} (h : Scalar.le model.rate 0 = true)
    (s : Simulator R G) : sampleNoise model s = ⟨.ok none, s, []⟩ := by
  unfold sampleNoise NoiseModel.sample
  rw [if_pos h]
  rfl

/-- All that is left of the noise is its check of the qubit. -/
theorem applyNoise_of_quiet {s : Simulator R G} (hs : s.Quiet) (q : Nat) :
    applyNoise q s = checkQubit q s := by
  refine bind_of_idle fun _ t ht => ?_
  have hst : t = s := ht.2.symm
  subst hst
  rw [reading_bind]
  cases hnoise : t.noise with
  | none => rfl
  | some model => exact bind_of_silent (sampleNoise_of_quiet (hs model hnoise) t)

/-- Inside the register nothing at all is left of the noise. -/
theorem forEach_applyNoise_of_quiet {s : Simulator R G} (hs : s.Quiet) {qubits : List Nat}
    (hq : ∀ q ∈ qubits, q < s.numQubits) : forEach applyNoise qubits s = ⟨.ok (), s, []⟩ := by
  induction qubits with
  | nil => rfl
  | cons q rest ih =>
      have hfirst : applyNoise q s = ⟨.ok (), s, []⟩ :=
        (applyNoise_of_quiet hs q).trans (checkQubit_of_lt (hq q List.mem_cons_self))
      exact (bind_of_silent hfirst).trans (ih fun p hp => hq p (List.mem_cons_of_mem q hp))

/-- A gate is followed by nothing. The noise is asked only where the gate was accepted, and
    then its qubits are inside the register. -/
theorem applyNoisyGate_of_quiet {s : Simulator R G} (hs : s.Quiet) (g : Gate R) :
    applyNoisyGate g s = applyGate g s := by
  refine bind_of_idle fun _ t ht => ?_
  rcases (answers_applyGate g s t).mp ht with ⟨hshape, a, -, hst⟩
  have hquiet : t.Quiet := hst ▸ hs
  have hinside : ∀ q ∈ g.qubits, q < t.numQubits := hst ▸ hshape.1
  rw [reading_bind]
  cases t.noise with
  | none => rfl
  | some model => exact forEach_applyNoise_of_quiet hquiet hinside

end Steps

section Pair

/-- The simulator `s` has no noise, and `t` is the same one with the noise of a model. -/
def Muted (model : NoiseModel R) (s t : Simulator R G) : Prop :=
  s.noise = none ∧ t = { s with noise := some model }

variable {model : NoiseModel R}

omit [Scalar R] in
/-- Without noise and with noise that never strikes, two simulators are alike in all that
    evolution and measurement look at. -/
theorem twins_muted : Twins (Muted model : Simulator R G → Simulator R G → Prop) where
  numQubits := by
    rintro s t ⟨-, rfl⟩
    rfl
  buffer := by
    rintro s t ⟨-, rfl⟩
    rfl
  generator := by
    rintro s t ⟨-, rfl⟩
    rfl
  withBuffer := by
    rintro s t b ⟨hs, rfl⟩
    exact ⟨hs, rfl⟩
  withGenerator := by
    rintro s t g ⟨hs, rfl⟩
    exact ⟨hs, rfl⟩

/-- In neither of the two does noise strike. -/
theorem Muted.quiet {s t : Simulator R G} (h : Muted model s t)
    (hmodel : Scalar.le model.rate 0 = true) : s.Quiet ∧ t.Quiet := by
  rcases h with ⟨hs, rfl⟩
  refine ⟨fun m hm => absurd (hs.symm.trans hm) (by simp), fun m hm => ?_⟩
  rwa [← Option.some.inj hm]

variable [RandomSource R G]

/-- Both runs come down to the check of the qubit. -/
theorem agree_muted_applyNoise (hmodel : Scalar.le model.rate 0 = true) (q : Nat) :
    Agree (Muted model) (applyNoise q : Step R G Unit) (applyNoise q) := by
  intro s t hst
  rcases hst.quiet hmodel with ⟨hs, ht⟩
  rw [applyNoise_of_quiet hs, applyNoise_of_quiet ht]
  exact twins_muted.agree_checkQubit q s t hst

/-- Both runs come down to the gate. -/
theorem agree_muted_applyNoisyGate (hmodel : Scalar.le model.rate 0 = true) (g : Gate R) :
    Agree (Muted model) (applyNoisyGate g : Step R G Unit) (applyNoisyGate g) := by
  intro s t hst
  rcases hst.quiet hmodel with ⟨hs, ht⟩
  rw [applyNoisyGate_of_quiet hs, applyNoisyGate_of_quiet ht]
  exact twins_muted.agree_applyGate g s t hst

omit [Scalar R] [RandomSource R G] in
theorem agree_muted_saveState (name : String) :
    Agree (Muted model) (saveState name : Step R G Unit) (saveState name) := by
  refine agree_bind (agree_note _ _) fun _ => agree_change ?_
  rintro s t ⟨hs, rfl⟩
  exact ⟨hs, rfl⟩

omit [Scalar R] [RandomSource R G] in
/-- The snapshots are those of both, so one is found in both or in neither. -/
theorem agree_muted_loadState (name : String) :
    Agree (Muted model) (loadState name : Step R G Unit) (loadState name) := by
  refine agree_bind (agree_reading ?_) fun found => ?_
  · rintro s t ⟨-, rfl⟩
    rfl
  · cases found with
    | none => exact fun s t hst => ⟨rfl, hst⟩
    | some b => exact agree_bind (twins_muted.agree_update fun _ => b) fun _ => agree_note _ _

omit [Scalar R] [RandomSource R G] in
theorem agree_muted_clearSnapshots :
    Agree (Muted model) (clearSnapshots : Step R G Unit) clearSnapshots := by
  refine agree_bind (agree_reading ?_) fun count => agree_bind (agree_note _ _) fun _ => ?_
  · rintro s t ⟨-, rfl⟩
    rfl
  · refine agree_change ?_
    rintro s t ⟨hs, rfl⟩
    exact ⟨hs, rfl⟩

/-- One operation on both simulators. -/
theorem agree_replied (hmodel : Scalar.le model.rate 0 = true) {op : Operation R}
    (hop : op.setsNoise = false) :
    Agree (Muted model) (replied op : Step R G Reply) (replied op) := by
  have hgate := agree_muted_applyNoisyGate (G := G) hmodel
  cases op with
  | applyGate g => exact agree_bind (twins_muted.agree_applyGate g) fun _ => agree_pure _
  | applyNoise q => exact agree_bind (agree_muted_applyNoise hmodel q) fun _ => agree_pure _
  | simulate c shots =>
      exact agree_bind (twins_muted.agree_simulate hgate c shots) fun _ => agree_pure _
  | sampleCounts c shots =>
      exact agree_bind (twins_muted.agree_sampleCounts hgate c shots) fun _ => agree_pure _
  | measure q => exact agree_bind (twins_muted.agree_measure q) fun _ => agree_pure _
  | measureAll => exact agree_bind twins_muted.agree_measureAll fun _ => agree_pure _
  | measureCircuit c =>
      exact agree_bind (twins_muted.agree_measureCircuit c) fun _ => agree_pure _
  | measurementStats shots =>
      exact agree_bind (twins_muted.agree_measurementStats shots) fun _ => agree_pure _
  | reset => exact agree_bind twins_muted.agree_reset fun _ => agree_pure _
  | saveState name => exact agree_bind (agree_muted_saveState name) fun _ => agree_pure _
  | loadState name => exact agree_bind (agree_muted_loadState name) fun _ => agree_pure _
  | clearSnapshots => exact agree_bind agree_muted_clearSnapshots fun _ => agree_pure _
  | setSeed seed =>
      refine agree_bind (agree_change fun s t hst => ?_) fun _ => agree_pure _
      exact twins_muted.withGenerator _ hst
  | _ => exact absurd hop (by simp [Operation.setsNoise])

end Pair

variable [RandomSource R G]

/-- Two simulators that differ in nothing but a noise model of rate zero, which only one of
    them has, go through all operations in the same way. Every operation gives the same
    answer or the same error, and leaves simulators that differ in nothing but this model. -/
theorem zero_rate_invisible {model : NoiseModel R} (hmodel : model.isNoiseless = true)
    {ops : List (Operation R)} (hops : ∀ op ∈ ops, op.setsNoise = false)
    {s : Simulator R G} (hs : s.noise = none) :
    List.Forall₂ (fun o o' => o'.result = o.result ∧ o.state.noise = none ∧
        o'.state = { o.state with noise := some model })
      (replies ops s) (replies ops { s with noise := some model }) := by
  have hrate : Scalar.le model.rate 0 = true := ((Bool.and_eq_true _ _).mp hmodel).1
  have hst : Muted model s { s with noise := some model } := ⟨hs, rfl⟩
  -- From here on the two simulators are known by their relation only, which each operation keeps.
  generalize { s with noise := some model } = t at hst
  clear hs
  induction ops generalizing s t with
  | nil => exact .nil
  | cons op rest ih =>
      rcases agree_replied hrate (hops op List.mem_cons_self) s t hst with ⟨hresult, hstate⟩
      exact .cons ⟨hresult, hstate⟩
        (ih (fun p hp => hops p (List.mem_cons_of_mem op hp)) _ hstate)

/-- A matrix of the user's own with the rate zero. -/
noncomputable def idle : NoiseModel ℝ := ⟨.amplitudeDamping, 0, some ⟨0, 1, 1, 0⟩⟩

/-- Gates that are accepted and refused, and noise inside and outside the register. -/
noncomputable def mixed : List (Operation ℝ) :=
  [.applyGate ⟨.h, [0], [], none⟩, .saveState "plus", .applyGate ⟨.cx, [0], [], none⟩,
    .applyNoise 1, .applyNoise 2, .measure 1, .loadState "minus",
    .sampleCounts ⟨2, 2, [⟨.x, [1], [], none⟩, ⟨.cx, [1, 0], [], none⟩], [], none⟩ 2]

/-- A register of two qubits that are both read as one. -/
noncomputable def bare : Simulator ℝ Exact.Tape where
  numQubits := 2
  buffer := #[0, 0, 0, 1]
  snapshots := .empty
  noise := none
  generator := ⟨[0, 0, 0, 0, 0], []⟩

theorem idle_invisible_to_mixed :
    List.Forall₂ (fun o o' => o'.result = o.result ∧ o.state.noise = none ∧
        o'.state = { o.state with noise := some idle })
      (replies mixed bare) (replies mixed { bare with noise := some idle }) := by
  have hidle : idle.isNoiseless = true := by
    simp [idle, NoiseModel.isNoiseless, Scalar.same, Scalar.le]
  have hmixed : ∀ op ∈ mixed, op.setsNoise = false := by
    simp [mixed, Operation.setsNoise]
  exact zero_rate_invisible hidle hmixed rfl

end Simulator

end QubitLab
