import Mathlib
import QubitLab.Proofs.Exact.Scalar
import QubitLab.Proofs.Rewrite.Round

/-!
# Rewriting keeps the meaning

What a rewriting promises about the circuit that it leaves behind: there is a
permutation of the qubits, namely the one in the report, such that the measurements
are the old ones under it, and the gates are, under it, a list that means the same as
the old gates. `Rewritten` is this promise. It speaks of all readings at once, and so
of every semantics that obeys the rules of the rewriter.

One round keeps the promise by the theorems about its passes. For several rounds the
promises are joined, and there the renamings get in the way: the second round speaks
about gates that the first one has renamed. `Rewritten.trans` undoes the first
renaming on the list of the second round, which is possible because readings can be
carried along a renaming. The report joins the mappings in the same way, including
the rounds without one, by `getD_composeMappings`.

## Main definitions

* `Rewrite.Rewritten`: A circuit is another one, rewritten and relabelled.

## Theorems

* `Rewritten.refl`, `Rewritten.trans`: Promises can be joined.
* `getD_composeMappings`: The mapping of two reports is one after the other.
* `round_rewritten`, `moreRounds_rewritten`: Rounds keep the promise.
* `rewriting_keeps_meaning`: So do a round and rounds until nothing changes.
-/

namespace QubitLab

namespace Rewrite

universe u

variable {R : Type} [Scalar R]

/-- The circuit `d` is `c` with other gates that mean the same, and then with each
    qubit relabelled by `mapping`. -/
structure Rewritten (c : Circuit R) (mapping : List Nat) (d : Circuit R) : Prop where
  /-- The quantum register has kept its width. -/
  numQubits : d.numQubits = c.numQubits
  /-- The classical register has kept its width. -/
  numClbits : d.numClbits = c.numClbits
  /-- The mapping is a permutation of the quantum register. -/
  perm : mapping.Perm (List.range c.numQubits)
  /-- The measurements are the old ones in the old order, on relabelled qubits. -/
  measurements : d.measurements
    = c.measurements.map fun m => (Circuit.label mapping m.1, m.2)
  /-- The gates are relabelled gates that mean the same as the old ones. -/
  gates : ∃ gates : List (Gate R), (∀ g ∈ gates, g.Fits c.numQubits) ∧
    SameMeaning.{u} c.numQubits c.gates gates ∧
    d.gates = gates.map (Gate.mapQubits (Circuit.label mapping))

section Joining

/-- The promises of two rewritings, one after the other, give one promise. -/
theorem Rewritten.trans {c d e : Circuit R} {first second : List Nat} (hc : c.WellFormed)
    (h1 : Rewritten.{u} c first d) (h2 : Rewritten.{u} d second e) :
    Rewritten.{u} c (first.map (Circuit.label second)) e := by
  rcases h1.gates with ⟨gates1, hfit1, hmean1, hgates1⟩
  rcases h2.gates with ⟨gates2, hfit2, hmean2, hgates2⟩
  have hn := h1.numQubits
  have hperm2 := h2.perm
  rw [hn] at hperm2 hfit2 hmean2
  have hlen : first.length = c.numQubits := by rw [h1.perm.length_eq, List.length_range]
  have hback := Circuit.renaming_origin h1.perm
  refine ⟨h2.numQubits.trans hn, h2.numClbits.trans h1.numClbits,
    Circuit.perm_range_map h1.perm (Circuit.renaming_label hperm2), ?_,
    gates2.map (Gate.mapQubits (Circuit.origin first)), ?_, ?_, ?_⟩
  · rw [h2.measurements, h1.measurements, List.map_map]
    refine List.map_congr_left fun m hm => ?_
    have hq := (hc.2 m hm).1
    rw [Function.comp_apply, Circuit.label_map _ (hlen.symm ▸ hq)]
  · intro g hg
    rcases List.mem_map.mp hg with ⟨g', hg', rfl⟩
    exact Gate.fits_mapQubits hback (hfit2 g' hg')
  · -- Undoing the first renaming leads from the new gates back to the old ones.
    have hundo : d.gates.map (Gate.mapQubits (Circuit.origin first)) = gates1 := by
      rw [hgates1, List.map_map]
      refine (List.map_congr_left fun g hg => ?_).trans (List.map_id gates1)
      rw [Function.comp_apply, Gate.mapQubits_mapQubits]
      exact Gate.mapQubits_eq_self fun q hq =>
        Circuit.origin_label h1.perm ((hfit1 g hg).1 q hq)
    have hsecond := hmean2.mapQubits hback
    rw [hundo] at hsecond
    exact hmean1.trans hsecond
  · rw [hgates2, List.map_map]
    refine List.map_congr_left fun g hg => ?_
    -- Back by the first renaming, and forward by both, is forward by the second.
    have hq : g.qubits.map (Circuit.label second) = g.qubits.map fun q =>
        Circuit.label (first.map (Circuit.label second)) (Circuit.origin first q) := by
      refine List.map_congr_left fun q hq => ?_
      have hlt := (hfit2 g hg).1 q hq
      rw [Circuit.label_map _ (hlen.symm ▸ hback.lt q hlt), Circuit.label_origin h1.perm hlt]
    rw [Function.comp_apply, Gate.mapQubits_mapQubits, Gate.mapQubits, hq, Gate.mapQubits]

/-- The mapping of two reports is the mapping of the one after that of the other, and
    a missing mapping moves nothing. -/
theorem getD_composeMappings {n : Nat} {first second : Option (List Nat)}
    (h1 : (first.getD (List.range n)).Perm (List.range n))
    (h2 : (second.getD (List.range n)).Perm (List.range n)) :
    (RewriteReport.composeMappings first second).getD (List.range n)
      = (first.getD (List.range n)).map (Circuit.label (second.getD (List.range n))) := by
  cases second with
  | none =>
      have hstay : (first.getD (List.range n)).map (Circuit.label (List.range n))
          = first.getD (List.range n) := by
        refine (List.map_congr_left fun q hq => ?_).trans (List.map_id _)
        exact Circuit.label_range (List.mem_range.mp (h1.mem_iff.mp hq))
      rw [Option.getD_none, hstay]
      cases first <;> rfl
  | some second =>
      cases first with
      | some first => rfl
      | none =>
          -- A mapping is what it makes of the qubits in order.
          have hlen : second.length = n := by
            rw [Option.getD_some] at h2
            rw [h2.length_eq, List.length_range]
          simp only [Option.getD_none, Option.getD_some, RewriteReport.composeMappings,
            Option.or_none]
          refine List.ext_getElem (by rw [List.length_map, List.length_range, hlen]) ?_
          intro q hq _
          rw [List.getElem_map, List.getElem_range, Circuit.label_eq_getElem hq]

end Joining

/-- The qubits of a report's circuit: the new label of each of `n` qubits. -/
def labels (n : Nat) (r : RewriteReport) : List Nat := r.mapping.getD (List.range n)

/-- What a round leaves is the circuit, rewritten and relabelled. -/
theorem roundCircuit_rewritten {c : Circuit R} (hc : c.WellFormed) (s : RewriteSettings)
    (merged : Nat) :
    Rewritten.{u} c (labels c.numQubits (roundReport s c merged)) (roundCircuit s c) := by
  have hpassed := wellFormed_passed hc s
  have hd : roundCircuit s c = (passed s c).mapQubits
      (Circuit.label (labels c.numQubits (roundReport s c merged))) :=
    relabelled_eq_mapQubits hpassed _
  rw [hd]
  exact ⟨rfl, rfl, roundMapping_perm s (passed s c), rfl, roundGates s c,
    roundGates_fits hc s, roundGates_sameMeaning hc s, rfl⟩

/-- A round keeps the promise. -/
theorem round_rewritten {s : RewriteSettings} {c d : Circuit R} {r : RewriteReport}
    (h : Transition.Answers (round s) c r d) :
    Rewritten.{u} c (labels c.numQubits r) d := by
  rcases (answers_round s c d r).mp h with ⟨hc, merged, -, rfl, rfl⟩
  exact roundCircuit_rewritten hc s merged

/-- One more round, joined to the rounds before it. -/
theorem absorb_rewritten {s : RewriteSettings} {c d e : Circuit R} {total r : RewriteReport}
    (hc : c.WellFormed) (htotal : Rewritten.{u} c (labels c.numQubits total) d)
    (h : Transition.Answers (round s) d r e) :
    Rewritten.{u} c (labels c.numQubits (total.absorb r)) e := by
  have hr := round_rewritten.{u} h
  have hperm := hr.perm
  rw [htotal.numQubits] at hr hperm
  have hjoin := htotal.trans hc hr
  rw [labels, labels] at hjoin
  rw [labels, RewriteReport.absorb, getD_composeMappings htotal.perm hperm]
  exact hjoin

/-- Further rounds keep the promise that the rounds before have made. -/
theorem moreRounds_rewritten {s : RewriteSettings} {n : Nat} {c d e : Circuit R}
    {total r : RewriteReport} (hc : c.WellFormed)
    (htotal : Rewritten.{u} c (labels c.numQubits total) d)
    (h : Transition.Answers (moreRounds s n total) d r e) :
    Rewritten.{u} c (labels c.numQubits r) e := by
  -- The rounds so far are one rewriting, and each further round is joined to it.
  induction n generalizing total d with
  | zero =>
      rw [moreRounds, Transition.answers_pure] at h
      rcases h with ⟨rfl, rfl⟩
      exact htotal
  | succ n ih =>
      simp only [moreRounds, Transition.answers_bind, Transition.answers_reading] at h
      rcases h with ⟨_, before, ⟨rfl, rfl⟩, report, _, hround, _, after, ⟨rfl, rfl⟩, h⟩
      have hnext := absorb_rewritten hc htotal hround
      by_cases hsize : after.size = before.size
      · rw [if_pos hsize, Transition.answers_pure] at h
        rcases h with ⟨rfl, rfl⟩
        exact hnext
      · rw [if_neg hsize] at h
        exact ih hnext h

/-- Rounds until nothing changes keep the promise. -/
theorem untilStable_rewritten {s : RewriteSettings} {c d : Circuit R} {r : RewriteReport}
    (h : Transition.Answers (untilStable s) c r d) :
    Rewritten.{u} c (labels c.numQubits r) d := by
  simp only [untilStable, Transition.answers_bind, Transition.answers_note,
    Transition.answers_pure] at h
  rcases h with ⟨first, c', hfirst, total, d', hmore, _, _, rfl, rfl, rfl⟩
  have hc := ((answers_round s c c' first).mp hfirst).1
  exact moreRounds_rewritten hc (round_rewritten hfirst) hmore

/-- Rewriting keeps the meaning, under any settings: when a round, or rounds until
    nothing changes, succeed with a report, then the circuit that is left is the old
    one, rewritten and relabelled by the mapping of the report. -/
theorem rewriting_keeps_meaning (s : RewriteSettings) (c : Circuit R) (r : RewriteReport)
    (rewriting : Rewriting R RewriteReport)
    (hkind : rewriting = round s ∨ rewriting = untilStable s)
    (hok : (rewriting c).result = .ok r) :
    Rewritten.{u} c (r.mapping.getD (List.range c.numQubits)) (rewriting c).state := by
  have h := (Transition.result_eq_ok_iff rewriting c r).mp hok
  rcases hkind with rfl | rfl
  · exact round_rewritten h
  · exact untilStable_rewritten h

/-- A circuit in which two gates cancel across a gate on another wire, two rotations
    are fused, and the two qubits change places. -/
def crossing : Circuit ℝ where
  numQubits := 2
  numClbits := 1
  gates :=
    [⟨.h, [1], [], none⟩, ⟨.rz, [0], [1], none⟩, ⟨.h, [1], [], none⟩, ⟨.cx, [1, 0], [], none⟩,
      ⟨.rz, [1], [2], none⟩, ⟨.rz, [1], [3], none⟩, ⟨.s, [1], [], none⟩]
  measurements := [(1, 0)]
  name := none

theorem crossing_keeps_meaning :
    Rewritten.{0} crossing [1, 0] (untilStable .full crossing).state := by
  have hok : (untilStable .full crossing).result
      = .ok ⟨7, 4, 6, 4, 2, 1, 0, 4, 2, some [1, 0]⟩ := by
    cbv
  exact rewriting_keeps_meaning .full crossing _ (untilStable .full) (Or.inr rfl) hok

end Rewrite

end QubitLab
