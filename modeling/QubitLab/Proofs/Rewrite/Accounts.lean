import Mathlib.Algebra.Group.Even
import QubitLab.Proofs.Rewrite.FixedPoint
import QubitLab.Proofs.Rewrite.Layered

/-!
# What a report accounts for

A report says how large a circuit was before and after, and how much each pass has done.
These numbers are gathered in different places. The counts come from the passes, the
sizes and depths are taken from the circuits, and the reports of several rounds are
joined. `Accounted` says in what way they agree: every gate that is gone was either
cancelled or fused, and the circuit has not become deeper.

For the counts there is one lemma for each of the two passes that take gates out. These
passes do not add to the depth, by `Layers.count_le_of_sublist`, and the passes that reorder
leave it as it is, by `Layers.count_arranges`. Layering reports the depth of the list that it
is given, and what comes after that keeps the depth.

## Main definitions

* `Rewrite.Accounted`: A report agrees with the circuits before and after.

## Theorems

* `cancelIf_count`, `fuseFrom_count`: The gates that the passes take out.
* `fuse_qubits_sublist`: Fusing takes gates out as far as the qubits are concerned.
* `count_reorders`: A reordering keeps the depth.
* `roundCircuit_depth_le`, `roundCircuit_depth_layer`: The depth after a round.
* `round_accounted`, `Accounted.absorb`, `moreRounds_accounted`: Rounds and their joining.
* `one_le_maxRounds`: Checked settings allow at least one round.
* `report_accounts`: The report of a rewriting.
-/

namespace QubitLab

namespace Rewrite

variable {R : Type}

section Counts

/-- The gates that were taken out are pairs, and they are all that is missing. -/
theorem cancelIf_count (enabled : Bool) (gates : List (Gate R)) :
    ∃ pairs, (cancelIf enabled gates).2 = 2 * pairs ∧
      gates.length = (cancelIf enabled gates).1.length + 2 * pairs := by
  cases enabled with
  | true =>
      rcases cancel_deletions gates with ⟨pairs, hdel, hcount⟩
      exact ⟨pairs, hcount, hdel.length.symm⟩
  | false => exact ⟨0, rfl, rfl⟩

variable [Scalar R]

/-- Every fusion takes one gate out. -/
theorem fuseFrom_count {gates : List (Gate R)} {i fused count : Nat}
    (hok : (fuseFrom gates i fused).2 = .ok count) :
    gates.length + fused = (fuseFrom gates i fused).1.length + count := by
  induction gates, i, fused using fuseFrom.induct with
  | case1 gates i fused hlt hn ih =>
      rw [fuseFrom_step fused hlt hn] at hok ⊢
      exact ih hok
  | case2 gates i fused hlt j kind qubits angle hs e he =>
      -- A sum that cannot be built ends the scan, and then there is no count.
      rw [fuseFrom_fusion fused hlt hs, he] at hok
      exact absurd hok (by simp)
  | case3 gates i fused hlt j kind qubits angle hs f hf ih =>
      rw [fuseFrom_fusion fused hlt hs, hf] at hok ⊢
      -- The sum takes the place of the first rotation, and the second one goes.
      have hj := fusion?_lt hs
      have hlen : ((gates.set i f).eraseIdx j).length + 1 = gates.length := by
        rw [List.length_eraseIdx, List.length_set, if_pos hj]
        omega
      rw [← ih hok]
      omega
  | case4 gates i fused hlt =>
      rw [fuseFrom, if_neg hlt] at hok ⊢
      rw [Except.ok.inj hok]

/-- Every fusion takes one gate out, and where fusing is switched off none is gone. -/
theorem fuseIf_count {enabled : Bool} {gates : List (Gate R)} {count : Nat}
    (hok : (fuseIf enabled gates).2 = .ok count) :
    gates.length = (fuseIf enabled gates).1.length + count := by
  cases enabled with
  | true => exact fuseFrom_count hok
  | false => exact (congrArg (gates.length + ·) (Except.ok.inj hok)).trans rfl

end Counts

section Depth

open Layers

/-- A reordering keeps the depth. -/
theorem count_reorders {n : Nat} {a b : List (Gate R)} (h : Reorders a b)
    (hr : ∀ g ∈ a, ∀ q ∈ g.qubits, q < n) : count b n = count a n := by
  rcases h.arranges with ⟨order, horder⟩
  exact count_arranges hr horder

theorem cancelIf_qubits_sublist (enabled : Bool) (gates : List (Gate R)) :
    ((cancelIf enabled gates).1.map Gate.qubits).Sublist (gates.map Gate.qubits) := by
  cases enabled with
  | true => exact (cancel_sublist gates).map Gate.qubits
  | false => exact List.Sublist.refl _

variable [Scalar R]

omit [Scalar R] in
/-- A sum stands on the qubits of its first rotation, so to look at the qubits only is to
    see the second one taken out. -/
theorem fused_qubits_sublist {gates : List (Gate R)} {i j : Nat} {g h f : Gate R}
    (hadj : WireAdjacent gates i j g h) (hf : f.qubits = g.qubits) :
    (((gates.set i f).eraseIdx j).map Gate.qubits).Sublist (gates.map Gate.qubits) := by
  rcases hadj.split with ⟨before, middle, after, rfl, hi, hj, -⟩
  rw [fused_split hi hj]
  simp only [List.map_append, List.map_cons, hf]
  exact (((List.sublist_cons_self _ _).append_left _).cons_cons _).append_left _

/-- As far as the qubits are concerned, fusing takes gates out and does nothing else. -/
theorem fuse_qubits_sublist (gates : List (Gate R)) :
    ((fuse gates).1.map Gate.qubits).Sublist (gates.map Gate.qubits) := by
  rcases @fuseFrom_invariant R _
    (fun now _ => (now.map Gate.qubits).Sublist (gates.map Gate.qubits))
    (fun _ _ _ h => h)
    (fun now i j g h f kind a b hadj hk _ _ hf hnow =>
      (fused_qubits_sublist hadj (builtin_fused hk hf).1).trans hnow)
    gates 0 0 (List.Sublist.refl _) with ⟨m, h, -⟩
  exact h

theorem fuseIf_qubits_sublist (enabled : Bool) (gates : List (Gate R)) :
    ((fuseIf enabled gates).1.map Gate.qubits).Sublist (gates.map Gate.qubits) := by
  cases enabled with
  | true => exact fuse_qubits_sublist gates
  | false => exact List.Sublist.refl _

/-- Relabelling keeps the depth, so the depth after a round is that of its gates. -/
theorem roundCircuit_depth {c : Circuit R} (hc : c.WellFormed) (s : RewriteSettings) :
    (roundCircuit s c).depth = count (roundGates s c) c.numQubits := by
  have hpassed := wellFormed_passed hc s
  -- Where relabelling is switched off this is the renaming by the identity.
  rw [Circuit.depth, roundCircuit, relabelled_eq_mapQubits hpassed]
  exact count_mapQubits (Circuit.renaming_label (roundMapping_perm s (passed s c)))
    fun g hg => (hpassed.1 g hg).1

/-- A round does not add to the depth. -/
theorem roundCircuit_depth_le {c : Circuit R} (hc : c.WellFormed) (s : RewriteSettings) :
    (roundCircuit s c).depth ≤ c.depth := by
  have hfused : ∀ g ∈ (fuseIf s.merging (cancelIf s.cancellation c.gates).1).1,
      ∀ q ∈ g.qubits, q < c.numQubits := fun g hg =>
    ((fuseIf_sameMeaning.{0} (cancelIf_fits hc.1 s.cancellation) s.merging).2 g hg).1
  -- The two passes that reorder keep the depth, and the two before them only take out.
  rw [roundCircuit_depth hc s, count_reorders (roundGates_reorders hc s) hfused]
  exact count_le_of_sublist (fun g hg => (hc.1 g hg).1)
    ((fuseIf_qubits_sublist _ _).trans (cancelIf_qubits_sublist _ _))

/-- Layering reports the depth of the gates that it is given, which is still the depth
    after it. -/
theorem roundCircuit_depth_layer {c : Circuit R} (hc : c.WellFormed) {s : RewriteSettings}
    (hs : s.layering = true) (merged : Nat) :
    (roundReport s c merged).layers = (roundCircuit s c).depth := by
  have hfused := (fuseIf_sameMeaning.{0} (cancelIf_fits hc.1 s.cancellation) s.merging).2
  have hbubble := bubbleIf_reorders s.commutation
    (fuseIf s.merging (cancelIf s.cancellation c.gates).1).1
  have hr : ∀ g ∈ (bubbleIf s.commutation
      (fuseIf s.merging (cancelIf s.cancellation c.gates).1).1).1,
      ∀ q ∈ g.qubits, q < c.numQubits := fun g hg =>
    (hfused g (hbubble.perm.mem_iff.mpr hg)).1
  rw [roundCircuit_depth hc s, roundReport, roundGates, hs]
  simp only [layerIf, if_true]
  rw [count_reorders (layer_reorders hr) hr, layer_snd]

end Depth

variable [Scalar R]

/-- The report agrees with the circuits before and after: with their sizes and depths, with
    what was taken out in between, and with the layers if there was a layering. -/
structure Accounted (s : RewriteSettings) (c : Circuit R) (r : RewriteReport)
    (d : Circuit R) : Prop where
  /-- The number of gates at the start. -/
  gatesBefore : r.gatesBefore = c.size
  /-- The number of gates at the end. -/
  gatesAfter : r.gatesAfter = d.size
  /-- The number of layers at the start. -/
  depthBefore : r.depthBefore = c.depth
  /-- The number of layers at the end. -/
  depthAfter : r.depthAfter = d.depth
  /-- A gate is still there, or it was cancelled, or it was fused into another one. -/
  balance : r.gatesBefore = r.gatesAfter + r.cancelled + r.merged
  /-- Gates are cancelled in pairs. -/
  pairs : Even r.cancelled
  /-- There are not more layers than before. -/
  depth : r.depthAfter ≤ r.depthBefore
  /-- The last layering saw as many layers as there are. -/
  layers : s.layering = true → r.layers = r.depthAfter

/-- The report of one round accounts for it. -/
theorem round_accounted {s : RewriteSettings} {c d : Circuit R} {r : RewriteReport}
    (h : Transition.Answers (round s) c r d) : Accounted s c r d ∧ r.rounds = 1 := by
  rcases (answers_round s c d r).mp h with ⟨hc, merged, hmerged, rfl, rfl⟩
  rcases cancelIf_count s.cancellation c.gates with ⟨pairs, hcancelled, hcancel⟩
  have hfuse := fuseIf_count hmerged
  have hreorder := (roundGates_reorders hc s).perm.length_eq
  have hsize := roundCircuit_size hc s
  refine ⟨⟨rfl, rfl, rfl, rfl, ?_, ?_, roundCircuit_depth_le hc s,
    fun hs => roundCircuit_depth_layer hc hs merged⟩, rfl⟩
  · -- Cancelling and fusing take gates out, and the reorderings after them do not.
    dsimp only [roundReport]
    rw [Circuit.size, hsize, hcancelled, ← hreorder]
    omega
  · dsimp only [roundReport]
    rw [hcancelled]
    exact even_two_mul pairs

omit [Scalar R] in
/-- The joined report of some rounds and one more. -/
theorem Accounted.absorb {s : RewriteSettings} {c d e : Circuit R} {total r : RewriteReport}
    (h1 : Accounted s c total d) (h2 : Accounted s d r e) : Accounted s c (total.absorb r) e := by
  have hbalance : total.gatesBefore
      = r.gatesAfter + (total.cancelled + r.cancelled) + (total.merged + r.merged) := by
    -- The last round starts from what the rounds before it have left.
    have hmiddle := h1.gatesAfter.trans h2.gatesBefore.symm
    have hfirst := h1.balance
    have hsecond := h2.balance
    omega
  have hdepth : r.depthAfter ≤ total.depthBefore := by
    have hmiddle := h1.depthAfter.trans h2.depthBefore.symm
    have hfirst := h1.depth
    have hsecond := h2.depth
    omega
  exact ⟨h1.gatesBefore, h2.gatesAfter, h1.depthBefore, h2.depthAfter, hbalance,
    h1.pairs.add h2.pairs, hdepth, h2.layers⟩

/-- What more rounds do to the report: it stays one of the circuits at both ends, and each
    round is counted. -/
theorem moreRounds_accounted {s : RewriteSettings} {n : Nat} {c d e : Circuit R}
    {total r : RewriteReport} (htotal : Accounted s c total d)
    (h : Transition.Answers (moreRounds s n total) d r e) :
    Accounted s c r e ∧ total.rounds ≤ r.rounds ∧ r.rounds ≤ total.rounds + n := by
  induction n generalizing total d with
  | zero =>
      rw [moreRounds, Transition.answers_pure] at h
      rcases h with ⟨rfl, rfl⟩
      exact ⟨htotal, Nat.le_refl _, Nat.le_refl _⟩
  | succ n ih =>
      simp only [moreRounds, Transition.answers_bind, Transition.answers_reading] at h
      rcases h with ⟨_, before, ⟨rfl, rfl⟩, report, _, hround, _, after, ⟨rfl, rfl⟩, h⟩
      rcases round_accounted hround with ⟨hreport, hone⟩
      have hnext := htotal.absorb hreport
      have hrounds : (total.absorb report).rounds = total.rounds + 1 :=
        congrArg (total.rounds + ·) hone
      by_cases hsize : after.size = before.size
      · -- Nothing has been taken out, so this was the last round.
        rw [if_pos hsize, Transition.answers_pure] at h
        rcases h with ⟨rfl, rfl⟩
        exact ⟨hnext, by omega, by omega⟩
      · rw [if_neg hsize] at h
        rcases ih hnext h with ⟨haccounted, hlow, hhigh⟩
        exact ⟨haccounted, by omega, by omega⟩

omit [Scalar R] in
/-- Settings that pass their check allow at least one round. -/
theorem one_le_maxRounds {s : RewriteSettings} {u : Unit}
    (hvalid : (s.validate : Except (Error R) Unit) = .ok u) : 1 ≤ s.maxRounds := by
  unfold RewriteSettings.validate at hvalid
  by_contra hnone
  rw [if_pos (by omega)] at hvalid
  exact absurd hvalid (by simp)

/-- The report of a successful rewriting, under any settings that pass their check, accounts
    for the circuit that is left, and counts at least one round and no more than allowed. -/
theorem report_accounts {s : RewriteSettings} {c : Circuit R} {r : RewriteReport}
    {rewriting : RewriteSettings → Rewriting R RewriteReport}
    (hkind : rewriting = round ∨ rewriting = untilStable)
    (hok : (checked s rewriting c).result = .ok r) :
    Accounted s c r (checked s rewriting c).state ∧ 1 ≤ r.rounds ∧ r.rounds ≤ s.maxRounds := by
  have h := (Transition.result_eq_ok_iff _ c r).mp hok
  generalize (checked s rewriting c).state = d at h ⊢
  simp only [checked, Transition.answers_bind, Transition.answers_require] at h
  rcases h with ⟨u, c', ⟨hvalid, hc'⟩, h⟩
  rw [hc'] at h
  have hmax := one_le_maxRounds hvalid
  rcases hkind with rfl | rfl
  · rcases round_accounted h with ⟨haccounted, hone⟩
    exact ⟨haccounted, by omega, by omega⟩
  · simp only [untilStable, Transition.answers_bind, Transition.answers_note,
      Transition.answers_pure] at h
    rcases h with ⟨first, c₁, hfirst, total, d₁, hmore, _, _, rfl, rfl, rfl⟩
    -- The first round is counted on its own, and the others with the report of it.
    rcases round_accounted hfirst with ⟨hone, hrounds⟩
    rcases moreRounds_accounted hone hmore with ⟨haccounted, hlow, hhigh⟩
    exact ⟨haccounted, by omega, by omega⟩

/-- Of the seven gates of `crossing` two are cancelled and one is fused. -/
theorem crossing_accounted :
    Accounted .full crossing ⟨7, 4, 6, 4, 2, 1, 0, 4, 2, some [1, 0]⟩
      (checked .full untilStable crossing).state := by
  have hok : (checked .full untilStable crossing).result
      = .ok ⟨7, 4, 6, 4, 2, 1, 0, 4, 2, some [1, 0]⟩ := by
    cbv
  exact (report_accounts (Or.inr rfl) hok).1

end Rewrite

end QubitLab
