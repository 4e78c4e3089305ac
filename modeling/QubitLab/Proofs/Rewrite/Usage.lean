import QubitLab.Proofs.Circuit.Renamed
import QubitLab.Rewrite.Usage

/-!
# Relabelling by usage succeeds

The order of the qubits by usage comes from sorting, so it is a permutation of the
register, and the new label of a qubit is its position in that order. Positions in
a permutation are a permutation again. So relabelling by usage never fails on a
well-formed circuit, whatever the counts are.

## Theorems

* `usageOrder_perm`: The order lists every qubit of the register once.
* `usageMapping_perm`: The mapping is a permutation of the register.
* `answers_relabelByUsage_iff`: When the edit succeeds, and with what.
* `answers_relabelByUsage`: The edit succeeds on a well-formed circuit.
-/

namespace QubitLab

namespace Circuit

variable {R : Type}

/-- There is one entry for each qubit. -/
theorem usage_length (c : Circuit R) : c.usage.length = c.numQubits := by
  have hsize : ∀ (qubits : List Nat) (counts : Array Nat),
      (qubits.foldl (fun counts q => counts.modify q (· + 1)) counts).size = counts.size := by
    intro qubits
    induction qubits with
    | nil =>
        intro counts
        rfl
    | cons q rest ih =>
        intro counts
        rw [List.foldl_cons, ih, Array.size_modify]
  rw [usage, Array.length_toList, hsize, Array.size_replicate]

/-- The order lists every qubit of the register once. -/
theorem usageOrder_perm (c : Circuit R) : c.usageOrder.Perm (List.range c.numQubits) := by
  have hsort := (List.mergeSort_perm c.usage.zipIdx comesFirst).map Prod.snd
  rw [List.zipIdx_map_snd, usage_length, ← List.range_eq_range'] at hsort
  exact hsort

/-- The mapping is a permutation of the register. -/
theorem usageMapping_perm (c : Circuit R) :
    c.usageMapping.Perm (List.range c.numQubits) :=
  perm_range_map (List.Perm.refl _) (renaming_origin c.usageOrder_perm)

/-- The edit succeeds where its relabelling does, for no usage is in its way. -/
theorem answers_relabelByUsage_iff (c d : Circuit R) (mapping : List Nat) :
    Transition.Answers relabelByUsage c mapping d ↔
      c.Placed ∧ mapping = c.usageMapping ∧ d = c.mapQubits (label c.usageMapping) := by
  simp only [relabelByUsage, Transition.answers_bind, Transition.answers_reading,
    Transition.answers_pure]
  constructor
  · rintro ⟨m, c', ⟨rfl, rfl⟩, u, t, hrelabel, rfl, rfl⟩
    rcases (answers_relabel_iff _ _ _).mp hrelabel with ⟨⟨-, hc⟩, rfl⟩
    exact ⟨hc, rfl, rfl⟩
  · rintro ⟨hc, rfl, rfl⟩
    have hrelabel := (answers_relabel_iff _ c _).mpr ⟨⟨c.usageMapping_perm, hc⟩, rfl⟩
    exact ⟨_, _, ⟨rfl, rfl⟩, _, _, hrelabel, rfl, rfl⟩

theorem answers_relabelByUsage [Scalar R] {c : Circuit R} (hc : c.WellFormed)
    (mapping : List Nat) (d : Circuit R) :
    Transition.Answers relabelByUsage c mapping d ↔
      mapping = c.usageMapping ∧ d = c.mapQubits (label c.usageMapping) :=
  (answers_relabelByUsage_iff c d mapping).trans (and_iff_right hc.placed)

end Circuit

end QubitLab
