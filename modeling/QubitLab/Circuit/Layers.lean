import QubitLab.Gate.Basic

/-!
# Layers

Gates that touch no common qubit can act at the same time. A gate is put into the
first layer in which all its qubits are free: one after the last layer in which a
gate before it touches one of its qubits. Layers are counted from zero, and qubits
outside the register are passed over.

## Main definitions

* `Layers.assign`: The layer of each gate.
* `Layers.count`: The number of layers.
* `Layers.group`: The positions of the gates, layer by layer.
-/

namespace QubitLab

namespace Layers

variable {R : Type}

/-- The first layer in which all of the qubits are free. -/
def firstFree (free : Array Nat) (qubits : List Nat) : Nat :=
  ((qubits.filterMap fun q => free[q]?).max?).getD 0

/-- The free layers after a gate on the qubits is put into a layer. -/
def occupy (free : Array Nat) (layer : Nat) (qubits : List Nat) : Array Nat :=
  qubits.foldl (fun free q => free.setIfInBounds q (layer + 1)) free

/-- The layers of the gates, given for each qubit the first layer in which it is
    free. -/
def assignFrom (free : Array Nat) : List (Gate R) → List Nat
  | [] => []
  | g :: rest =>
    let layer := firstFree free g.qubits
    layer :: assignFrom (occupy free layer g.qubits) rest

/-- The layer of each gate, in the order of the gates. -/
def assign (gates : List (Gate R)) (numQubits : Nat) : List Nat :=
  assignFrom (Array.replicate numQubits 0) gates

/-- One more than the greatest of some layers, and zero if there are none. -/
def bound (layers : List Nat) : Nat :=
  match layers.max? with
  | some deepest => deepest + 1
  | none => 0

/-- The number of layers. -/
def count (gates : List (Gate R)) (numQubits : Nat) : Nat := bound (assign gates numQubits)

/-- The positions of the items that are equal to `layer`, in order. -/
def positions (layers : List Nat) (layer : Nat) : List Nat :=
  (layers.zipIdx.filter fun p => p.1 == layer).map Prod.snd

/-- The positions of the gates, layer by layer, in order within a layer. -/
def group (gates : List (Gate R)) (numQubits : Nat) : List (List Nat) :=
  let layers := assign gates numQubits
  (List.range (bound layers)).map (positions layers)

end Layers

end QubitLab
