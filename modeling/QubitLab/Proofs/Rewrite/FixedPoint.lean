import QubitLab.Proofs.Rewrite.Faithful

/-!
# One round is enough

After a successful round the number of gates has reached its end. The passes that
take gates out leave nothing to take out, by the theorems about them, and what comes
after them keeps it that way: reordering and relabelling bring no two gates together
that were apart. So a second round with the same settings finds nothing, and rounds
until nothing changes are at most two, the second of which only confirms the first.

The second round may still reorder and relabel the gates.

## Theorems

* `roundCircuit_settled`: What is left after a round is settled.
* `round_again`: The second round takes nothing out.
* `round_reaches_fixed_point`: The two together, and what follows for rounds until
  nothing changes.
-/

namespace QubitLab

namespace Rewrite

variable {R : Type} [Scalar R]

/-- Relabelling keeps the gates of a round settled, for a condition that does not look
    at the qubits. -/
theorem roundCircuit_settled {P : Gate R → Gate R → Prop} {c : Circuit R}
    (hc : c.WellFormed) (s : RewriteSettings)
    (hP : ∀ (f : Nat → Nat) (g h : Gate R), P (g.mapQubits f) (h.mapQubits f) → P g h)
    (h : Settled P (roundGates s c)) : Settled P (roundCircuit s c).gates := by
  have hpassed := wellFormed_passed hc s
  have hf := Circuit.renaming_label (roundMapping_perm s (passed s c))
  rw [roundCircuit, relabelled_eq_mapQubits hpassed, Circuit.mapQubits_gates]
  exact h.mapQubits hf (fun g hg => (hpassed.1 g hg).1) (hP _)

/-- After a round with cancelling nothing is left to cancel. -/
theorem roundCircuit_settled_cancels {c : Circuit R} (hc : c.WellFormed)
    {s : RewriteSettings} (hs : s.cancellation = true) :
    Settled Cancels (roundCircuit s c).gates :=
  roundCircuit_settled hc s (fun _ _ _ h => h) (roundGates_settled_cancels hc hs)

/-- After a round with fusing nothing is left to fuse. -/
theorem roundCircuit_settled_fusible {c : Circuit R} (hc : c.WellFormed)
    {s : RewriteSettings} (hs : s.merging = true) {merged : Nat}
    (hm : (fuseIf s.merging (cancelIf s.cancellation c.gates).1).2 = .ok merged) :
    Settled Fusible (roundCircuit s c).gates :=
  roundCircuit_settled hc s (fun _ _ _ h => h) (roundGates_settled_fusible hc hs hm)

omit [Scalar R] in
/-- Where nothing is left to cancel the pass does nothing, and where it is switched off it never
    does. -/
theorem cancelIf_of_settled {enabled : Bool} {gates : List (Gate R)}
    (h : enabled = true → Settled Cancels gates) : cancelIf enabled gates = (gates, 0) := by
  cases enabled with
  | true => exact cancel_of_settled (h rfl)
  | false => rfl

theorem fuseIf_of_settled {enabled : Bool} {gates : List (Gate R)}
    (h : enabled = true → Settled Fusible gates) :
    fuseIf enabled gates = (gates, .ok 0) := by
  cases enabled with
  | true => exact fuse_of_settled (h rfl)
  | false => rfl

/-- A round leaves as many gates as its passes do. -/
theorem roundCircuit_size {c : Circuit R} (hc : c.WellFormed) (s : RewriteSettings) :
    (roundCircuit s c).size = (roundGates s c).length := by
  rw [Circuit.size, roundCircuit, relabelled_eq_mapQubits (wellFormed_passed hc s),
    Circuit.mapQubits_gates, List.length_map]
  rfl

/-- A round on gates that are settled takes nothing out. -/
theorem round_of_settled {c : Circuit R} (hc : c.WellFormed) {s : RewriteSettings}
    (hcancel : s.cancellation = true → Settled Cancels c.gates)
    (hfuse : s.merging = true → Settled Fusible c.gates) :
    Transition.Answers (round s) c (roundReport s c 0) (roundCircuit s c) ∧
      (roundReport s c 0).cancelled = 0 ∧ (roundCircuit s c).size = c.size := by
  have hc0 := cancelIf_of_settled hcancel
  have hf0 := fuseIf_of_settled hfuse
  have hperm := (roundGates_reorders hc s).perm
  rw [hc0, hf0] at hperm
  refine ⟨(answers_round _ _ _ _).mpr ⟨hc, 0, ?_, rfl, rfl⟩, ?_, ?_⟩
  · rw [hc0, hf0]
  · rw [roundReport, hc0]
  · rw [roundCircuit_size hc s, ← hperm.length_eq, Circuit.size]

/-- The second round takes nothing out. -/
theorem round_again {s : RewriteSettings} {c d : Circuit R} {r : RewriteReport}
    (h : Transition.Answers (round s) c r d) :
    ∃ r' e, Transition.Answers (round s) d r' e ∧ r'.cancelled = 0 ∧ r'.merged = 0 ∧
      r'.rounds = 1 ∧ e.size = d.size ∧ r'.gatesAfter = r.gatesAfter := by
  rcases (answers_round s c d r).mp h with ⟨hc, merged, hm, rfl, rfl⟩
  rcases round_of_settled (wellFormed_roundCircuit hc s)
    (fun hs => roundCircuit_settled_cancels hc hs)
    (fun hs => roundCircuit_settled_fusible hc hs hm) with ⟨hround, hcancelled, hsize⟩
  exact ⟨_, _, hround, hcancelled, rfl, rfl, hsize, hsize⟩

/-- Rounds until nothing changes end with the second one. -/
theorem untilStable_of_round {s : RewriteSettings} (hs : 1 ≤ s.maxRounds) {c d : Circuit R}
    {r : RewriteReport} (h : Transition.Answers (round s) c r d) :
    ∃ t e, Transition.Answers (untilStable s) c t e ∧ t.rounds = min 2 s.maxRounds ∧
      t.gatesAfter = r.gatesAfter := by
  have hone : r.rounds = 1 := by
    rcases (answers_round s c d r).mp h with ⟨-, merged, -, rfl, -⟩
    rfl
  simp only [untilStable, Transition.answers_bind, Transition.answers_note,
    Transition.answers_pure]
  cases hmore : s.maxRounds - 1 with
  | zero =>
      refine ⟨r, d, ⟨r, d, h, r, d, ?_, (), d, rfl, rfl, rfl⟩, ?_, rfl⟩
      · rw [moreRounds, Transition.answers_pure]
        exact ⟨rfl, rfl⟩
      · omega
  | succ n =>
      -- A second round finds nothing to do.
      rcases round_again h with ⟨r', e, hround, -, -, hrounds, hsize, hafter⟩
      refine ⟨r.absorb r', e, ⟨r, d, h, r.absorb r', e, ?_, (), e, rfl, rfl, rfl⟩, ?_, hafter⟩
      · -- The number of gates is the same, so there is no third round.
        simp only [moreRounds, Transition.answers_bind, Transition.answers_reading]
        refine ⟨_, d, ⟨rfl, rfl⟩, r', e, hround, _, e, ⟨rfl, rfl⟩, ?_⟩
        rw [if_pos hsize, Transition.answers_pure]
        exact ⟨rfl, rfl⟩
      · have htwo : (r.absorb r').rounds = r.rounds + r'.rounds := rfl
        omega

/-- After a successful round nothing is left to cancel or to fuse, as far as these
    passes are enabled; a second round takes nothing out; and rounds until nothing
    changes end after at most two of them, with as many gates as after the first. -/
theorem round_reaches_fixed_point (s : RewriteSettings) (c : Circuit R) (r : RewriteReport)
    (hok : (round s c).result = .ok r) :
    (s.cancellation = true → Settled Cancels (round s c).state.gates) ∧
    (s.merging = true → Settled Fusible (round s c).state.gates) ∧
    (∃ r', (round s (round s c).state).result = .ok r' ∧ r'.cancelled = 0 ∧
      r'.merged = 0 ∧ r'.gatesAfter = r.gatesAfter) ∧
    (1 ≤ s.maxRounds → ∃ t, (untilStable s c).result = .ok t ∧
      t.rounds = min 2 s.maxRounds ∧ t.gatesAfter = r.gatesAfter) := by
  have h := (Transition.result_eq_ok_iff (round s) c r).mp hok
  rcases (answers_round _ _ _ _).mp h with ⟨hc, merged, hm, -, hstate⟩
  refine ⟨fun hs => ?_, fun hs => ?_, ?_, fun hs => ?_⟩
  · rw [hstate]
    exact roundCircuit_settled_cancels hc hs
  · rw [hstate]
    exact roundCircuit_settled_fusible hc hs hm
  · rcases round_again h with ⟨r', e, hround, hcancelled, hmerged, -, -, hafter⟩
    exact ⟨r', hround.1, hcancelled, hmerged, hafter⟩
  · rcases untilStable_of_round hs h with ⟨t, e, hrun, hrounds, hafter⟩
    exact ⟨t, hrun.1, hrounds, hafter⟩

theorem crossing_reaches_fixed_point :
    ∃ t, (untilStable .full crossing).result = .ok t ∧ t.rounds = 2 ∧ t.gatesAfter = 4 := by
  have hok : (round .full crossing).result = .ok ⟨7, 4, 6, 4, 2, 1, 0, 4, 1, some [1, 0]⟩ := by
    cbv
  rcases (round_reaches_fixed_point .full crossing _ hok).2.2.2 (by decide) with
    ⟨t, ht, hrounds, hafter⟩
  exact ⟨t, ht, hrounds, hafter⟩

end Rewrite

end QubitLab
