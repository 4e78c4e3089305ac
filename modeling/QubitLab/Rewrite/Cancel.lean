import QubitLab.Gate.Basic
import QubitLab.Rewrite.Rules

/-!
# Cancelling inverse gates

Two gates cancel when the second one is the first gate after the first one that
shares a qubit with it, both act on the same qubits in the same order, and their
kinds undo each other. Both are taken out.

The list is scanned from the left. Taking a pair out may bring gates before it
together with gates behind it, so the scan goes back to the earliest gate that may
now have a new neighbour: over the qubits of the pair, the earliest of the last
gates before it.

The scan ends because each step either takes two gates out or moves on in a list
of the same length.

## Main definitions

* `Rewrite.nextOnWires?`: The position of the next gate that shares a qubit.
* `Rewrite.lastOnWire?`: The position of the last gate on a qubit before a
  position.
* `Rewrite.earliestNeighbour?`: Where the scan goes back to.
* `Rewrite.partner?`: The gate that a gate cancels with.
* `Rewrite.cancel`: The pass.
-/

namespace QubitLab

namespace Rewrite

variable {R : Type}

/-- The position of the first gate after position `i` that shares a qubit with the
    gate there. -/
def nextOnWires? (gates : List (Gate R)) (i : Nat) : Option Nat :=
  match gates[i]? with
  | none => none
  | some g =>
    ((gates.drop (i + 1)).findIdx? fun h => h.overlaps g).map (i + 1 + ·)

/-- The position of the last gate before position `i` that touches a qubit. -/
def lastOnWire? (gates : List (Gate R)) (i q : Nat) : Option Nat :=
  ((gates.take i).zipIdx.reverse.find? fun p => p.1.actsOn q).map Prod.snd

/-- The earliest, over some qubits, of the last gates before position `i` that
    touch them. -/
def earliestNeighbour? (gates : List (Gate R)) (i : Nat) (qubits : List Nat) :
    Option Nat :=
  (qubits.filterMap (lastOnWire? gates i)).min?

/-- True when two gates act on the same qubits and their kinds undo each other. -/
def areInverse (g h : Gate R) : Bool := g.qubits == h.qubits && g.kind.cancels h.kind

/-- The position of the gate that the gate at position `i` cancels with, and the
    qubits of the two. -/
def partner? (gates : List (Gate R)) (i : Nat) : Option (Nat × List Nat) := do
  let j ← nextOnWires? gates i
  let g ← gates[i]?
  let h ← gates[j]?
  if areInverse g h then some (j, g.qubits) else none

/-- The list without the gates at two positions, the second one being behind the
    first one. -/
def removePair (gates : List (Gate R)) (i j : Nat) : List (Gate R) :=
  (gates.eraseIdx j).eraseIdx i

theorem length_removePair_lt {gates : List (Gate R)} {i : Nat} (h : i < gates.length)
    (j : Nat) : (removePair gates i j).length < gates.length := by
  have := List.length_eraseIdx_le gates j
  unfold removePair
  rw [List.length_eraseIdx]
  split
  · omega
  · rw [List.length_eraseIdx] at *
    split at * <;> omega

/-- The scan from position `i` on, with the number of gates taken out so far. -/
def cancelFrom (gates : List (Gate R)) (i removed : Nat) : List (Gate R) × Nat :=
  if _h : i < gates.length then
    match partner? gates i with
    | none => cancelFrom gates (i + 1) removed
    | some (j, qubits) =>
      let rest := removePair gates i j
      cancelFrom rest ((earliestNeighbour? rest i qubits).getD i) (removed + 2)
  else (gates, removed)
termination_by (gates.length, gates.length - i)
decreasing_by
  · exact Prod.Lex.right _ (by omega)
  · exact Prod.Lex.left _ _ (length_removePair_lt _h j)

/-- The pass: the list without the gates that cancel, and the number of gates taken
    out. -/
def cancel (gates : List (Gate R)) : List (Gate R) × Nat := cancelFrom gates 0 0

end Rewrite

end QubitLab
