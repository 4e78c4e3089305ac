import QubitLab.Circuit.Relabel

/-!
# Relabelling by usage

The qubits are given new labels in the order of how often gates touch them, the
busiest first. Qubits that are equally busy keep their order.

## Main definitions

* `Circuit.usageOrder`: The qubits, the busiest first.
* `Circuit.usageMapping`: The new label of each qubit.
* `Circuit.relabelByUsage`: The edit.
-/

namespace QubitLab

namespace Circuit

variable {R : Type}

/-- True when the first of two qubits, given with how often they are touched, comes
    before the second one. -/
def comesFirst (a b : Nat × Nat) : Bool := b.1 < a.1 || (a.1 == b.1 && a.2 ≤ b.2)

/-- The qubits, the busiest first. -/
def usageOrder (c : Circuit R) : List Nat :=
  (c.usage.zipIdx.mergeSort comesFirst).map Prod.snd

/-- The new label of each qubit: its position in the order of usage. -/
def usageMapping (c : Circuit R) : List Nat :=
  let order := c.usageOrder
  (List.range c.numQubits).map fun q => order.idxOf q

/-- The edit that relabels by usage, and answers with the mapping. -/
def relabelByUsage : Edit R (List Nat) := do
  let mapping ← Transition.reading usageMapping
  relabel mapping
  return mapping

end Circuit

end QubitLab
