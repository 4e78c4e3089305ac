import QubitLab.Proofs.Circuit.Depth
import QubitLab.Proofs.Circuit.Renamed

/-!
# Relabelling as an action

Relabelling checks everything before it changes anything, so it either fails and leaves the
circuit alone or renames all qubits at once. It does not ask for a circuit that keeps its
rules. What it needs is a permutation of the register and a circuit that is `Placed`, and a
circuit is placed after relabelling as it was before. So one relabelling can follow another
whenever the second mapping is a permutation.

Two of them are then one, by the mapping that looks a label up in the first list and the
result in the second, and the list of the positions of the labels undoes a relabelling. In
`Circuit.inverse` the position of a label is found by searching, which gives the qubit that
got the label because no label comes twice.

What a relabelled circuit has in common with the old one is all that is said without naming
a qubit. That the depth is the same is the one part of it that has to be proved, by
`Layers.count_mapQubits`.

## Main definitions

* `Circuit.inverse`: The mapping that undoes another one.
* `Circuit.SameCounts`: Two circuits agree in depth and in what is counted.

## Theorems

* `inverse_perm`, `label_inverse`: The inverse of a permutation.
* `sameCounts_mapQubits`: A renaming keeps depth and counts.
* `answers_relabel_relabel`: Two relabellings are one.
* `answers_relabel_inverse`: The inverse mapping restores the circuit.
* `relabel_acts`: All of it in one, and when relabelling succeeds.
-/

namespace QubitLab

namespace Circuit

variable {R : Type}

section Inverse

/-- For each label the qubit that got it. -/
def inverse (mapping : List Nat) : List Nat :=
  (List.range mapping.length).map (origin mapping)

variable {n : Nat} {mapping : List Nat}

/-- The inverse of a permutation is one. -/
theorem inverse_perm (h : mapping.Perm (List.range n)) :
    (inverse mapping).Perm (List.range n) := by
  rw [inverse, h.length_eq, List.length_range]
  exact perm_range_map (List.Perm.refl _) (renaming_origin h)

/-- The inverse mapping gives a label the qubit that it came from. -/
theorem label_inverse (h : mapping.Perm (List.range n)) {p : Nat} (hp : p < n) :
    label (inverse mapping) p = origin mapping p := by
  rw [inverse, h.length_eq, List.length_range, label_map _ (by rw [List.length_range]; exact hp),
    label_range hp]

end Inverse

section Counts

/-- The circuits are equally deep, and have equally many gates of every width, gates with
    angles, and measurements. -/
structure SameCounts (c d : Circuit R) : Prop where
  /-- The number of layers. -/
  depth : d.depth = c.depth
  /-- The number of gates. -/
  size : d.size = c.size
  /-- The number of gates on so many qubits. -/
  widths : ∀ width, d.countWidth width = c.countWidth width
  /-- The number of gates with angles. -/
  parameterized : d.countParameterized = c.countParameterized
  /-- The number of measurements. -/
  measurements : d.measurements.length = c.measurements.length

/-- A renaming keeps the depth and what is counted. -/
theorem sameCounts_mapQubits {c : Circuit R} (hc : c.Placed) {f : Nat → Nat}
    (hf : Gate.Renaming c.numQubits f) : SameCounts c (c.mapQubits f) := by
  refine ⟨Layers.count_mapQubits hf fun g hg => (hc.1 g hg).1, ?_, fun width => ?_, ?_, ?_⟩
  · rw [size, mapQubits_gates, List.length_map, size]
  · rw [countWidth, mapQubits_gates, List.countP_map, countWidth]
    refine List.countP_congr fun g _ => ?_
    rw [Function.comp_apply, Gate.width, Gate.mapQubits_qubits, List.length_map, Gate.width]
  · rw [countParameterized, mapQubits_gates, List.countP_map, countParameterized]
    exact List.countP_congr fun _ _ => Iff.rfl
  · rw [mapQubits_measurements, List.length_map]

end Counts

section Action

open Transition

variable {c d e : Circuit R} {mapping next : List Nat}

/-- A second relabelling leads where one by both mappings leads. -/
theorem answers_relabel_relabel (h1 : Answers (relabel mapping) c () d)
    (h2 : Answers (relabel next) d () e) :
    Answers (relabel (mapping.map (label next))) c () e := by
  rcases (answers_relabel_iff mapping c d).mp h1 with ⟨⟨hperm, hc⟩, rfl⟩
  rcases (answers_relabel_iff next _ e).mp h2 with ⟨⟨hnext, -⟩, rfl⟩
  have hlen : mapping.length = c.numQubits := by rw [hperm.length_eq, List.length_range]
  refine (answers_relabel_iff _ _ _).mpr ⟨⟨perm_range_map hperm (renaming_label hnext), hc⟩, ?_⟩
  rw [mapQubits_mapQubits]
  exact hc.mapQubits_congr fun q hq => (label_map _ (hlen ▸ hq)).symm

/-- The inverse mapping restores the circuit. -/
theorem answers_relabel_inverse (h : Answers (relabel mapping) c () d) :
    Answers (relabel (inverse mapping)) d () c := by
  rcases (answers_relabel_iff mapping c d).mp h with ⟨⟨hperm, hc⟩, rfl⟩
  have hf := renaming_label hperm
  refine (answers_relabel_iff _ _ _).mpr ⟨⟨inverse_perm hperm, hc.mapQubits hf⟩, ?_⟩
  rw [mapQubits_mapQubits]
  refine (hc.mapQubits_eq_self fun q hq => ?_).symm
  rw [label_inverse hperm (hf.lt q hq), origin_label hperm hq]

/-- Relabelling succeeds exactly for a permutation of the register and a circuit that uses
    its qubits as it should, and else leaves the circuit as it was. When it succeeds, it
    does nothing but rename qubits, so depth and counts are the same; another permutation
    after it leads where both lead at once; and the inverse mapping leads back. -/
theorem relabel_acts (c : Circuit R) (mapping : List Nat) :
    ((relabel mapping c).result = .ok () ↔
      mapping.Perm (List.range c.numQubits) ∧ c.Placed) ∧
    (∀ error, (relabel mapping c).result = .error error → (relabel mapping c).state = c) ∧
    ∀ d, Answers (relabel mapping) c () d →
      d = c.mapQubits (label mapping) ∧
      SameCounts c d ∧
      (∀ next, next.Perm (List.range c.numQubits) →
        ∃ e, Answers (relabel next) d () e ∧
          Answers (relabel (mapping.map (label next))) c () e) ∧
      (∀ q, q < c.numQubits → label (inverse mapping) (label mapping q) = q) ∧
      Answers (relabel (inverse mapping)) d () c := by
  refine ⟨⟨fun h => ?_, fun h => ?_⟩, fun error h => ?_, fun d h => ?_⟩
  · rw [result_eq_ok_iff, answers_relabel_iff] at h
    exact h.1
  · exact ((answers_relabel_iff mapping c _).mpr ⟨h, rfl⟩).1
  · -- All that can fail is the attempt to make the new circuit.
    rw [result_eq_error_iff, relabel, fails_attempt] at h
    exact h.2
  · rcases (answers_relabel_iff mapping c d).mp h with ⟨⟨hperm, hc⟩, rfl⟩
    have hf := renaming_label hperm
    refine ⟨rfl, sameCounts_mapQubits hc hf, fun next hnext => ?_, fun q hq => ?_,
      answers_relabel_inverse h⟩
    · -- A renamed circuit is placed again, so the second mapping only has to be a permutation.
      have hsecond := (answers_relabel_iff next (c.mapQubits (label mapping)) _).mpr
        ⟨⟨hnext, hc.mapQubits hf⟩, rfl⟩
      exact ⟨_, hsecond, answers_relabel_relabel h hsecond⟩
    · rw [label_inverse hperm (hf.lt q hq), origin_label hperm hq]

/-- A circuit that breaks its rules, but none about qubits: a gate of the wrong width with
    an angle too many, and a measurement into a classical bit that is not there. -/
def misshapen : Circuit Float where
  numQubits := 3
  numClbits := 1
  gates := [⟨.cx, [0, 2, 1], [0.5], none⟩, ⟨.h, [1], [], none⟩]
  measurements := [(2, 4)]
  name := some "misshapen"

/-- Each qubit takes the place of the one before it, and then the other way round. -/
theorem misshapen_relabelled_and_back :
    (relabel [2, 0, 1] misshapen).result = .ok () ∧
      Answers (relabel [1, 2, 0]) (misshapen.mapQubits (label [2, 0, 1])) () misshapen := by
  rcases relabel_acts misshapen [2, 0, 1] with ⟨hok, -, hacts⟩
  have hresult : (relabel [2, 0, 1] misshapen).result = .ok () :=
    hok.mpr ⟨by decide, by unfold Placed; decide⟩
  have h := (result_eq_ok_iff _ _ _).mp hresult
  rcases hacts _ h with ⟨hd, -, -, -, hback⟩
  rw [hd] at hback
  exact ⟨hresult, hback⟩

end Action

end Circuit

end QubitLab
