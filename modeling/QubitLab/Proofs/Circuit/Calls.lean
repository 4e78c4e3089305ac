import QubitLab.Proofs.Invariant
import QubitLab.Proofs.Rewrite.Failure

/-!
# Everything that can be done with a circuit

A circuit is started in one of four ways, and from then on it is changed by edits and
rewritings only. `Circuit.Call` lists them, with what they are given, so that a statement
about lists of calls is one about every circuit that was not read from elsewhere. A call
that fails is followed by the next one like any other, from the circuit that it left behind.

Such a circuit is always well-formed, and its registers keep their widths. The calls make
sure of this in different ways. Some check what they are given and then build the gate, some
check a gate that is already there, and relabelling checks neither gates nor measurements,
but only that it is given a permutation. Measuring every qubit may stop half way, so it is
a loop of steps each of which keeps the invariant. A rewriting leaves the gates of its round
behind, or the circuit that it was given.

## Main definitions

* `Circuit.Call`: What can be done.
* `Circuit.Call.perform`: Doing it.
* `Circuit.outcomes`: What a list of calls leads to, one after the other.
* `Circuit.Started`: The ways to start.
* `Circuit.Over`: A well-formed circuit over registers of given widths.

## Theorems

* `keeps_addGate`, …, `keeps_relabel`: The invariant, one edit after the other.
* `keeps_round`, `keeps_untilStable`: The invariant under rewritings.
* `over_outcomes`: The invariant along a list of calls.
* `calls_keep_wellFormed`: The same, in terms of the check of a circuit.
-/

namespace QubitLab

namespace Circuit

/-- What can be done with a circuit that changes it. -/
inductive Call (R : Type) where
  /-- A gate of a built-in kind is added. -/
  | addGate (kind : GateKind) (qubits : List Nat) (params : List R)
  /-- A gate that is already there is added. -/
  | pushGate (g : Gate R)
  /-- A custom gate is added. -/
  | addCustom (name : String) (matrix : Rows (Complex R)) (qubits : List Nat)
  /-- A measurement is added. -/
  | measure (qubit clbit : Nat)
  /-- Every qubit is measured. -/
  | measureAll
  /-- The gates are replaced by others. -/
  | setGates (gates : List (Gate R))
  /-- The gates are taken out. -/
  | takeGates
  /-- Gates and measurements are taken out. -/
  | clear
  /-- The circuit gets a name. -/
  | rename (name : String)
  /-- The qubits are relabelled. -/
  | relabel (mapping : List Nat)
  /-- The qubits are relabelled by usage. -/
  | relabelByUsage
  /-- One round of the rewriter is made. -/
  | round (s : RewriteSettings)
  /-- Rounds are made until nothing changes. -/
  | untilStable (s : RewriteSettings)

variable {R : Type} [Scalar R]

/-- The rewriting that a call stands for. -/
def Call.perform : Call R → Rewrite.Rewriting R Unit
  | addGate kind qubits params => Rewrite.ofEdit (Circuit.addGate kind qubits params)
  | pushGate g => Rewrite.ofEdit (Circuit.pushGate g)
  | addCustom name matrix qubits => Rewrite.ofEdit (Circuit.addCustom name matrix qubits)
  | measure qubit clbit => Rewrite.ofEdit (Circuit.measure qubit clbit)
  | measureAll => Rewrite.ofEdit Circuit.measureAll
  | setGates gates => Rewrite.ofEdit (Circuit.setGates gates)
  | takeGates => do
    let _ ← Rewrite.ofEdit Circuit.takeGates
    return ()
  | clear => Rewrite.ofEdit Circuit.clear
  | rename name => Rewrite.ofEdit (Circuit.rename name)
  | relabel mapping => Rewrite.ofEdit (Circuit.relabel mapping)
  | relabelByUsage => do
    let _ ← Rewrite.optimizeMapping
    return ()
  | round s => do
    let _ ← Rewrite.round s
    return ()
  | untilStable s => do
    let _ ← Rewrite.untilStable s
    return ()

/-- The outcomes of calls one after the other, each from the circuit that the one before it
    left, whether that one failed or not. -/
def outcomes : List (Call R) → Circuit R →
    List (Outcome (Error R) RewriteRecord (Circuit R) Unit)
  | [], _ => []
  | call :: rest, c => call.perform c :: outcomes rest (call.perform c).state

/-- The ways to start a circuit. -/
inductive Started : Circuit R → Prop
  /-- Without gates, over two registers. -/
  | empty (numQubits numClbits : Nat) : Started (empty numQubits numClbits)
  /-- Without gates, with one classical bit for each qubit. -/
  | square (numQubits : Nat) : Started (square numQubits)
  /-- The same with a name. -/
  | named (numQubits : Nat) (name : String) : Started ((square numQubits).withName name)
  /-- With gates that are already there. -/
  | ofGates {numQubits : Nat} {gates : List (Gate R)} {c : Circuit R}
      (h : ofGates numQubits gates = .ok c) : Started c

/-- The circuit is well-formed, and its registers have the widths `n` and `m`. -/
structure Over (n m : Nat) (c : Circuit R) : Prop where
  /-- Gates and measurements are inside the registers. -/
  wellFormed : c.WellFormed
  /-- The width of the quantum register. -/
  numQubits : c.numQubits = n
  /-- The width of the classical register. -/
  numClbits : c.numClbits = m

section Edits

open Transition

variable {n m : Nat} {c : Circuit R}

/-- A gate that fits can be added. -/
theorem Over.append_gate (hc : c.Over n m) {g : Gate R} (hg : g.Fits c.numQubits) :
    Over n m { c with gates := c.gates ++ [g] } := by
  refine ⟨⟨fun h hh => ?_, hc.wellFormed.2⟩, hc.numQubits, hc.numClbits⟩
  rcases List.mem_append.mp hh with hh | hh
  · exact hc.wellFormed.1 h hh
  · exact List.mem_singleton.mp hh ▸ hg

/-- The gates can be replaced by others that fit. -/
theorem Over.with_gates (hc : c.Over n m) {gates : List (Gate R)}
    (hfit : ∀ g ∈ gates, g.Fits c.numQubits) : Over n m { c with gates } :=
  ⟨⟨hfit, hc.wellFormed.2⟩, hc.numQubits, hc.numClbits⟩

theorem Over.mapQubits (hc : c.Over n m) {f : Nat → Nat} (hf : Gate.Renaming c.numQubits f) :
    Over n m (c.mapQubits f) :=
  ⟨wellFormed_mapQubits hf hc.wellFormed, hc.numQubits, hc.numClbits⟩

variable {fine : Empty → Prop}

/-- Adding a gate keeps the invariant, since the gate has been made by its constructor. -/
theorem keeps_addGate (kind : GateKind) (qubits : List Nat) (params : List R) :
    Keeps fine (Over n m) (addGate kind qubits params) := by
  refine keeps_attempt fun c d hc h => ?_
  rcases (answers_addGate kind qubits params c d).mp h with ⟨hrange, g, hg, rfl⟩
  exact hc.append_gate (Gate.fits_builtin hrange hg)

theorem keeps_pushGate (g : Gate R) : Keeps fine (Over n m) (pushGate g) := by
  refine keeps_attempt fun c d hc h => ?_
  rcases (answers_pushGate g c d).mp h with ⟨hg, rfl⟩
  exact hc.append_gate hg

/-- A custom gate has been through its constructor as well. -/
theorem keeps_addCustom (name : String) (matrix : Rows (Complex R)) (qubits : List Nat) :
    Keeps fine (Over n m) (addCustom name matrix qubits) := by
  refine keeps_attempt fun c d hc h => ?_
  rcases (answers_addCustom name matrix qubits c d).mp h with ⟨hrange, g, hg, rfl⟩
  exact hc.append_gate (Gate.fits_custom hrange hg)

/-- A measurement is checked before it is added. -/
theorem keeps_measure (qubit clbit : Nat) :
    Keeps fine (Over n m) (measure qubit clbit : Edit R Unit) := by
  refine keeps_attempt fun c d hc h => ?_
  rcases (answers_measure qubit clbit c d).mp h with ⟨hmeasure, rfl⟩
  refine ⟨⟨hc.wellFormed.1, fun p hp => ?_⟩, hc.numQubits, hc.numClbits⟩
  rcases List.mem_append.mp hp with hp | hp
  · exact hc.wellFormed.2 p hp
  · rw [List.mem_singleton.mp hp]
    exact hmeasure

theorem keeps_measureAll : Keeps fine (Over n m) (measureAll : Edit R Unit) :=
  -- The loop may stop half way, and what it leaves then is kept as well.
  fun c hc => keeps_forEach (fun q _ => keeps_measure q q) c hc

/-- Gates that replace others are checked one by one. -/
theorem keeps_setGates (gates : List (Gate R)) : Keeps fine (Over n m) (setGates gates) := by
  refine keeps_attempt fun c d hc h => ?_
  rcases (answers_setGates gates c d).mp h with ⟨hfit, rfl⟩
  exact hc.with_gates hfit

theorem keeps_takeGates : Keeps fine (Over n m) (takeGates : Edit R (List (Gate R))) := by
  refine keeps_bind (keeps_reading _) fun gates => ?_
  refine keeps_bind (keeps_change fun c hc => ?_) fun _ => keeps_pure gates
  exact hc.with_gates fun g hg => absurd hg List.not_mem_nil

theorem keeps_clear : Keeps fine (Over n m) (clear : Edit R Unit) :=
  keeps_change fun _ hc =>
    ⟨⟨fun _ hg => absurd hg List.not_mem_nil, fun _ hp => absurd hp List.not_mem_nil⟩,
      hc.numQubits, hc.numClbits⟩

theorem keeps_rename (name : String) : Keeps fine (Over n m) (rename name : Edit R Unit) :=
  keeps_change fun _ hc => ⟨hc.wellFormed, hc.numQubits, hc.numClbits⟩

/-- Relabelling keeps the invariant, though it checks the mapping only. -/
theorem keeps_relabel (mapping : List Nat) :
    Keeps fine (Over n m) (relabel mapping : Edit R Unit) := by
  refine keeps_attempt fun c d hc h => ?_
  -- Gates and measurements are not checked again, so this rests on the permutation.
  have hcheck := ((Checks.check_bind_eq_ok _ _ _).mp ((answers_attempt _ () c d).mp h)).1
  have hperm := (checkMapping_eq_ok _ _).mp hcheck
  rw [← (answers_unique (answers_relabel hc.wellFormed hperm) h).2]
  exact hc.mapQubits (renaming_label hperm)

theorem keeps_relabelByUsage :
    Keeps fine (Over n m) (relabelByUsage : Edit R (List Nat)) := by
  refine keeps_bind (keeps_reading _) fun mapping => ?_
  exact keeps_bind (keeps_relabel mapping) fun _ => keeps_pure mapping

end Edits

section Rewritings

open Transition Rewrite

variable {n m : Nat} {fine : RewriteRecord → Prop}

/-- A round that answers leaves the circuit of its gates behind, and one that fails the
    circuit that it was given. -/
theorem keeps_round (s : RewriteSettings) :
    Keeps fine (Over n m) (round s : Rewriting R RewriteReport) := by
  refine keeps_of_state fun c hc => ?_
  cases hround : (round s c).result with
  | ok r =>
      -- The frame is that of the circuit before, and the gates are those of the passes.
      have h := (result_eq_ok_iff _ c r).mp hround
      have hframe := round_sameFrame h
      rcases (answers_round s c _ r).mp h with ⟨hwf, merged, -, -, hstate⟩
      refine ⟨?_, hframe.numQubits.trans hc.numQubits, hframe.numClbits.trans hc.numClbits⟩
      rw [hstate]
      exact wellFormed_roundCircuit hwf s
  | error e =>
      have h := (result_eq_error_iff _ c e).mp hround
      rw [((fails_round s c _ e).mp h).1]
      exact hc

/-- Rounds that follow each other keep what one of them keeps. -/
theorem keeps_moreRounds (s : RewriteSettings) (k : Nat) (total : RewriteReport) :
    Keeps fine (Over n m) (moreRounds s k total : Rewriting R RewriteReport) := by
  induction k generalizing total with
  | zero => exact keeps_pure total
  | succ k ih =>
      -- One round, and then either no more of them or at most `k`.
      refine keeps_bind (keeps_reading _) fun before => ?_
      refine keeps_bind (keeps_round s) fun report => ?_
      refine keeps_bind (keeps_reading _) fun after => ?_
      by_cases hsize : after = before
      · rw [if_pos hsize]
        exact keeps_pure _
      · rw [if_neg hsize]
        exact ih _

theorem keeps_untilStable (s : RewriteSettings) :
    Keeps fine (Over n m) (untilStable s : Rewriting R RewriteReport) := by
  refine keeps_bind (keeps_round s) fun first => ?_
  refine keeps_bind (keeps_moreRounds s _ first) fun total => ?_
  exact keeps_bind (keeps_note _) fun _ => keeps_pure total

end Rewritings

section Calls

open Transition

variable {n m : Nat} {fine : RewriteRecord → Prop}

/-- Every call keeps the invariant, whether it is accepted or not. -/
theorem keeps_call (call : Call R) : Keeps fine (Over n m) call.perform := by
  cases call with
  | addGate kind qubits params => exact keeps_mapJournal (keeps_addGate kind qubits params)
  | pushGate g => exact keeps_mapJournal (keeps_pushGate g)
  | addCustom name matrix qubits => exact keeps_mapJournal (keeps_addCustom name matrix qubits)
  | measure qubit clbit => exact keeps_mapJournal (keeps_measure qubit clbit)
  | measureAll => exact keeps_mapJournal keeps_measureAll
  | setGates gates => exact keeps_mapJournal (keeps_setGates gates)
  | takeGates => exact keeps_bind (keeps_mapJournal keeps_takeGates) fun _ => keeps_pure ()
  | clear => exact keeps_mapJournal keeps_clear
  | rename name => exact keeps_mapJournal (keeps_rename name)
  | relabel mapping => exact keeps_mapJournal (keeps_relabel mapping)
  | relabelByUsage =>
      exact keeps_bind (keeps_mapJournal keeps_relabelByUsage) fun _ => keeps_pure ()
  | round s => exact keeps_bind (keeps_round s) fun _ => keeps_pure ()
  | untilStable s => exact keeps_bind (keeps_untilStable s) fun _ => keeps_pure ()

/-- The invariant holds after every call of a list. -/
theorem over_outcomes {c : Circuit R} (hc : c.Over n m) (calls : List (Call R)) :
    ∀ o ∈ outcomes calls c, o.state.Over n m := by
  induction calls generalizing c with
  | nil =>
      intro o ho
      exact absurd ho List.not_mem_nil
  | cons call rest ih =>
      -- The next call starts from what this one left, also if it failed.
      have hfirst := @keeps_call R _ n m (fun _ => True) call c hc fun _ _ => trivial
      intro o ho
      rcases List.mem_cons.mp ho with rfl | ho
      · exact hfirst
      · exact ih hfirst o ho

theorem wellFormed_empty (numQubits numClbits : Nat) :
    (empty numQubits numClbits : Circuit R).WellFormed :=
  ⟨fun _ hg => absurd hg List.not_mem_nil, fun _ hp => absurd hp List.not_mem_nil⟩

/-- A circuit that starts with gates is an empty one whose gates have been set. -/
theorem answers_of_ofGates {numQubits : Nat} {gates : List (Gate R)} {c : Circuit R}
    (h : ofGates numQubits gates = .ok c) :
    Answers (setGates gates) (square numQubits) () c := by
  unfold ofGates at h
  unfold Answers
  generalize setGates gates (square numQubits) = outcome at h ⊢
  rcases outcome with ⟨e | u, d, journal⟩
  · exact absurd h (by simp [Except.map])
  · exact ⟨rfl, Except.ok.inj h⟩

/-- Every circuit is well-formed when it is started. -/
theorem Started.wellFormed {c : Circuit R} (hc : Started c) : c.WellFormed := by
  cases hc with
  | empty numQubits numClbits => exact wellFormed_empty numQubits numClbits
  | square numQubits => exact wellFormed_empty numQubits numQubits
  | named numQubits name => exact wellFormed_empty numQubits numQubits
  | ofGates h =>
      rcases (answers_setGates _ _ _).mp (answers_of_ofGates h) with ⟨hfit, rfl⟩
      exact ⟨hfit, fun _ hp => absurd hp List.not_mem_nil⟩

/-- However a circuit is started, and whatever is done with it, it passes its check after
    every call, and the widths of its registers stay what they were. -/
theorem calls_keep_wellFormed {c : Circuit R} (hc : Started c) (calls : List (Call R)) :
    c.validate = .ok () ∧ ∀ o ∈ outcomes calls c, o.state.validate = .ok () ∧
      o.state.numQubits = c.numQubits ∧ o.state.numClbits = c.numClbits := by
  have hstart : c.Over c.numQubits c.numClbits := ⟨hc.wellFormed, rfl, rfl⟩
  refine ⟨(validate_eq_ok c).mpr hc.wellFormed, fun o ho => ?_⟩
  have hover := over_outcomes hstart calls o ho
  exact ⟨(validate_eq_ok _).mpr hover.wellFormed, hover.numQubits, hover.numClbits⟩

/-- Two qubits and one classical bit: measuring both qubits fails half way, and the one
    measurement that is there is relabelled and rewritten with the gates. -/
def narrowCalls : List (Call ℝ) :=
  [.addGate .cx [0, 1] [], .addGate .h [2] [], .measureAll, .relabel [1, 0],
    .untilStable .full]

theorem narrowCalls_keep_wellFormed :
    (outcomes narrowCalls (empty 2 1)).map (fun o => o.state.measurements)
        = [[], [], [(0, 0)], [(1, 0)], [(1, 0)]] ∧
      ∀ o ∈ outcomes narrowCalls (empty 2 1), o.state.validate = .ok () ∧
        o.state.numQubits = 2 ∧ o.state.numClbits = 1 :=
  ⟨by cbv, (calls_keep_wellFormed (.empty 2 1) narrowCalls).2⟩

end Calls

end Circuit

end QubitLab
