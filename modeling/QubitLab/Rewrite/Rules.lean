import QubitLab.Gate.Kind

/-!
# Rewriting rules

The three relations on gate kinds that the rewriting of circuits goes by. They
speak of kinds only; whether two gates act on the same qubits is for the passes to
check.

## Main definitions

* `GateKind.inverse?`: The kind that undoes a kind.
* `GateKind.cancels`: Two kinds that undo each other.
* `GateKind.fused?`: The kind of two gates whose angles add up.
* `GateKind.movesPast`: Two kinds that may change places.
-/

namespace QubitLab

namespace GateKind

/-- The kind that, right after a gate of this kind on the same qubits, undoes
    it. -/
def inverse? : GateKind → Option GateKind
  | x => some x
  | y => some y
  | z => some z
  | h => some h
  | cx => some cx
  | cy => some cy
  | cz => some cz
  | swap => some swap
  | ccx => some ccx
  | ccz => some ccz
  | cswap => some cswap
  | s => some sdg
  | sdg => some s
  | t => some tdg
  | tdg => some t
  | sx => some sxdg
  | sxdg => some sx
  | _ => none

/-- True when the second kind undoes the first one. -/
def cancels (first second : GateKind) : Bool := first.inverse? == some second

/-- True of the kinds with a single angle that adds up. -/
def isAdditive : GateKind → Bool
  | rx | ry | rz | p | u1 | cp | crx | cry | crz | cu1 => true
  | _ => false

/-- The kind of one gate that does what two gates on the same qubits do, with the
    sum of their angles. -/
def fused? (first second : GateKind) : Option GateKind :=
  if first = second ∧ first.isAdditive then some first else none

/-- True when a gate of the first kind may be moved behind a gate of the second
    kind on other qubits. -/
def movesPast : GateKind → GateKind → Bool
  | x, z | z, x | h, x | h, z | s, x | t, x => true
  | _, _ => false

end GateKind

end QubitLab
