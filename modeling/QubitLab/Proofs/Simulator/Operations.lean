import Mathlib.Algebra.Ring.Nat
import QubitLab.Proofs.Transition
import QubitLab.Statevector.Measurement

/-!
# Everything that can be done with a simulator

A simulator is set up in one of three ways, and from then on it is changed by operations
only. `Operation` lists all of them that change anything, with what they are given, so that
statements about every use of a simulator are statements about lists of operations. An
operation that fails is followed by the next one like any other, from the state that it
left behind.

## Main definitions

* `Operation`: What can be done.
* `Operation.perform`: Doing it.
* `Simulator.outcomes`: What a list of operations leads to, one after the other.
* `Simulator.replied`, `Simulator.replies`: The same with the answers.
* `Simulator.IsSetup`: The ways to set up a simulator.
* `Simulator.started`: What a setup without noise leads to.
* `Simulator.Fresh`: A register in its ground state, without snapshots.

## Theorems

* `create_eq_ok_iff`: When a register is set up.
* `IsSetup.fresh`: A simulator starts in the ground state and without snapshots.
-/

namespace QubitLab

/-- What can be done with a simulator that changes it. -/
inductive Operation (R : Type) where
  /-- One gate is applied. -/
  | applyGate (g : Gate R)
  /-- The noise acts once on a qubit. -/
  | applyNoise (qubit : Nat)
  /-- A circuit is run. -/
  | simulate (c : Circuit R) (shots : Nat)
  /-- A circuit is run a number of times and the outcomes are counted. -/
  | sampleCounts (c : Circuit R) (shots : Nat)
  /-- A qubit is read. -/
  | measure (qubit : Nat)
  /-- All qubits are read. -/
  | measureAll
  /-- The measurements of a circuit are made. -/
  | measureCircuit (c : Circuit R)
  /-- All qubits are read a number of times and the outcomes are counted. -/
  | measurementStats (shots : Nat)
  /-- The register goes back to the ground state. -/
  | reset
  /-- A snapshot is taken. -/
  | saveState (name : String)
  /-- A snapshot is put back. -/
  | loadState (name : String)
  /-- All snapshots are dropped. -/
  | clearSnapshots
  /-- The noise is that of a channel at a rate. -/
  | setNoiseModel (channel : NoiseChannel) (rate : R)
  /-- The noise is given a matrix. -/
  | setCustomNoise (rows : Rows (Complex R))
  /-- The noise is taken away. -/
  | clearNoise
  /-- The random numbers start anew. -/
  | setSeed (seed : UInt64)

/-- The gates that an operation is given. -/
def Operation.gates {R : Type} : Operation R → List (Gate R)
  | applyGate g => [g]
  | simulate c _ | sampleCounts c _ => c.gates
  | _ => []

namespace Simulator

variable {R G : Type}

/-- A step whose answer is not looked at. -/
def unanswered {α : Type} (step : Step R G α) : Step R G Unit := do
  let _ ← step
  return ()

variable [Scalar R] [RandomSource R G]

/-- The step of an operation. -/
def perform : Operation R → Step R G Unit
  | .applyGate g => applyGate g
  | .applyNoise qubit => applyNoise qubit
  | .simulate c shots => simulate c shots
  | .sampleCounts c shots => unanswered (sampleCounts c shots)
  | .measure qubit => unanswered (measure qubit)
  | .measureAll => unanswered measureAll
  | .measureCircuit c => unanswered (measureCircuit c)
  | .measurementStats shots => unanswered (measurementStats shots)
  | .reset => reset
  | .saveState name => saveState name
  | .loadState name => loadState name
  | .clearSnapshots => clearSnapshots
  | .setNoiseModel channel rate => setNoiseModel channel rate
  | .setCustomNoise rows => setCustomNoise rows
  | .clearNoise => clearNoise
  | .setSeed seed => setSeed seed

/-- The outcomes of operations one after the other, each from the state that the one before
    it left, whether that one failed or not. -/
def outcomes : List (Operation R) → Simulator R G →
    List (Outcome (Error R) (SimulatorRecord R) (Simulator R G) Unit)
  | [], _ => []
  | op :: rest, s => perform op s :: outcomes rest (perform op s).state

/-- What an operation answers. -/
inductive Reply where
  /-- Nothing, but that it is done. -/
  | done
  /-- What a qubit read. -/
  | bit (outcome : Bool)
  /-- What several qubits read. -/
  | bits (outcomes : Bitstring)
  /-- How often each outcome came up. -/
  | counts (counts : Counts)
deriving DecidableEq, Repr

/-- The step of an operation, with its answer. -/
def replied : Operation R → Step R G Reply
  | .sampleCounts c shots => do return .counts (← sampleCounts c shots)
  | .measure qubit => do return .bit (← measure qubit)
  | .measureAll => do return .bits (← measureAll)
  | .measureCircuit c => do return .bits (← measureCircuit c)
  | .measurementStats shots => do return .counts (← measurementStats shots)
  | op => do
    perform op
    return .done

/-- The outcomes of operations one after the other, with their answers. -/
def replies : List (Operation R) → Simulator R G →
    List (Outcome (Error R) (SimulatorRecord R) (Simulator R G) Reply)
  | [], _ => []
  | op :: rest, s => replied op s :: replies rest (replied op s).state

/-- The ways to set up a simulator, whatever memory is granted. -/
inductive IsSetup : Setup R G → Prop
  /-- Without noise. -/
  | create (granted : Nat → Bool) (generator : G) (numQubits : Nat) :
      IsSetup (create granted generator numQubits)
  /-- With the noise of a channel at a rate. -/
  | createNoisy (granted : Nat → Bool) (generator : G) (numQubits : Nat)
      (channel : NoiseChannel) (rate : R) :
      IsSetup (createNoisy granted generator numQubits channel rate)
  /-- From a configuration. -/
  | ofConfig (granted : Nat → Bool) (generator : G) (config : SimulatorConfig R) :
      IsSetup (ofConfig granted generator config)

section Setups

open Transition

/-- A register in its ground state, without snapshots and without noise. -/
def started (generator : G) (numQubits : Nat) : Simulator R G where
  numQubits := numQubits
  buffer := Buffer.ground (2 ^ numQubits)
  snapshots := .empty
  noise := none
  generator := generator

/-- A register in its ground state, without snapshots. -/
def Fresh (s : Simulator R G) : Prop :=
  s.buffer = Buffer.ground (2 ^ s.numQubits) ∧ s.snapshots = .empty

omit [RandomSource R G] in
/-- A register is set up just when it has a qubit, its amplitudes can be addressed and memory
    for them is granted. -/
theorem create_eq_ok_iff {granted : Nat → Bool} {generator : G} {n : Nat} {s : Simulator R G} :
    (create granted generator n ()).result = .ok s ↔
      0 < n ∧ Statevector.dimension? n = some (2 ^ n) ∧ granted (2 ^ n) = true ∧
        s = started generator n := by
  have hdim : ∀ d, Statevector.dimension? n = some d → d = 2 ^ n := by
    intro d hd
    unfold Statevector.dimension? at hd
    split at hd
    · rw [← Option.some.inj hd, Nat.one_shiftLeft]
    · exact absurd hd (by simp)
  unfold create
  -- The three refusals, in the order in which they are tried.
  by_cases hn : n = 0
  · rw [if_pos hn]
    exact iff_of_false (by simp [fail]) fun h => Nat.ne_of_gt h.1 hn
  · rw [if_neg hn]
    cases hsize : Statevector.dimension? n with
    | none => simp [fail]
    | some d =>
        rw [hdim d hsize]
        dsimp only
        by_cases hgrant : granted (2 ^ n) = true
        · rw [if_pos hgrant]
          refine ⟨fun h => ⟨Nat.pos_of_ne_zero hn, rfl, hgrant, (Except.ok.inj h).symm⟩, ?_⟩
          rintro ⟨-, -, -, rfl⟩
          rfl
        · rw [if_neg hgrant]
          exact iff_of_false (by simp [fail]) fun h => hgrant h.2.2.1

omit [RandomSource R G] in
/-- A register that has been set up is fresh. -/
theorem fresh_of_create {granted : Nat → Bool} {generator : G} {n : Nat} {s : Simulator R G}
    (h : (create granted generator n ()).result = .ok s) : s.Fresh := by
  rcases create_eq_ok_iff.mp h with ⟨-, -, -, rfl⟩
  exact ⟨rfl, rfl⟩

omit [RandomSource R G] in
/-- A setup followed by a step that touches neither the amplitudes nor the snapshots. -/
theorem fresh_of_followedBy {setup : Setup R G} {step : Step R G Unit}
    (hsetup : ∀ s, (setup ()).result = .ok s → s.Fresh)
    (hstep : ∀ s t, s.Fresh → Answers step s () t → t.Fresh) {t : Simulator R G}
    (h : ((setup.followedBy step) ()).result = .ok t) : t.Fresh := by
  unfold Setup.followedBy at h
  generalize setup () = first at hsetup h
  rcases first with ⟨e | s, _, journal⟩ <;> dsimp only at h
  · exact absurd h (by simp)
  · refine hstep s t (hsetup s rfl) ?_
    unfold Answers
    generalize step s = second at h ⊢
    rcases second with ⟨e | _, u, later⟩
    · exact absurd h (by simp)
    · exact ⟨rfl, Except.ok.inj h⟩

omit [RandomSource R G] in
/-- Noise is put in without a look at the amplitudes. -/
theorem fresh_setNoise (model : NoiseModel R) (s t : Simulator R G) (hs : s.Fresh)
    (h : Answers (setNoise model) s () t) : t.Fresh := by
  simp only [setNoise, answers_bind, answers_note, answers_change] at h
  rcases h with ⟨_, _, rfl, rfl⟩
  exact hs

omit [RandomSource R G] in
theorem fresh_setNoiseModel (channel : NoiseChannel) (rate : R) (s t : Simulator R G)
    (hs : s.Fresh) (h : Answers (setNoiseModel channel rate) s () t) : t.Fresh := by
  simp only [setNoiseModel, answers_bind, answers_require] at h
  rcases h with ⟨model, u, ⟨-, hu⟩, h⟩
  exact fresh_setNoise model u t (hu ▸ hs) h

/-- A seed changes the random numbers and nothing else. -/
theorem fresh_setSeed (seed : UInt64) (s t : Simulator R G) (hs : s.Fresh)
    (h : Answers (setSeed seed) s () t) : t.Fresh := by
  rw [setSeed, answers_change] at h
  rw [h]
  exact hs

/-- A simulator starts in the ground state and without snapshots. -/
theorem IsSetup.fresh {setup : Setup R G} (hsetup : IsSetup setup) {s : Simulator R G}
    (h : (setup ()).result = .ok s) : s.Fresh := by
  cases hsetup with
  | create granted generator n => exact fresh_of_create h
  | createNoisy granted generator n channel rate =>
      exact fresh_of_followedBy (fun _ => fresh_of_create) (fresh_setNoiseModel channel rate) h
  | ofConfig granted generator config =>
      unfold Simulator.ofConfig at h
      cases hvalid : config.validate with
      | error e =>
          rw [hvalid] at h
          exact absurd h (by simp)
      | ok =>
          rw [hvalid] at h
          dsimp only at h
          -- The noise is put in first, and then the seed, where the configuration has them.
          cases hmodel : config.noise with
          | none =>
              rw [hmodel] at h
              cases hseed : config.seed with
              | none =>
                  rw [hseed] at h
                  exact fresh_of_create h
              | some seed =>
                  rw [hseed] at h
                  exact fresh_of_followedBy (fun _ => fresh_of_create) (fresh_setSeed seed) h
          | some model =>
              rw [hmodel] at h
              cases hseed : config.seed with
              | none =>
                  rw [hseed] at h
                  exact fresh_of_followedBy (fun _ => fresh_of_create) (fresh_setNoise model) h
              | some seed =>
                  rw [hseed] at h
                  refine fresh_of_followedBy (fun _ hs => ?_) (fresh_setSeed seed) h
                  exact fresh_of_followedBy (fun _ => fresh_of_create) (fresh_setNoise model) hs

end Setups

end Simulator

end QubitLab
