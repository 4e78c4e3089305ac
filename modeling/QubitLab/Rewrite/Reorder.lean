import QubitLab.Circuit.Layers
import QubitLab.Rewrite.Rules

/-!
# Reordering gates

Two passes change nothing but the order of the gates. Bubbling is one sweep from
the left, in which a gate changes places with the next one when the two share no
qubit and their kinds allow it; a gate that has moved goes on moving. Layering puts
the gates in the order of their layers.

## Main definitions

* `Rewrite.bubble`: The sweep.
* `Rewrite.layer`: The order of the layers.
-/

namespace QubitLab

namespace Rewrite

variable {R : Type}

/-- True when two neighbours change places. -/
def changePlaces (left right : Gate R) : Bool :=
  !left.overlaps right && left.kind.movesPast right.kind

/-- The sweep over the rest of a list, with the gate in front of it. -/
def bubbleFrom (left : Gate R) : List (Gate R) → List (Gate R) × Nat
  | [] => ([left], 0)
  | right :: rest =>
    if changePlaces left right then
      let (gates, swaps) := bubbleFrom left rest
      (right :: gates, swaps + 1)
    else
      let (gates, swaps) := bubbleFrom right rest
      (left :: gates, swaps)

/-- The sweep: the list after it, and the number of changes. -/
def bubble : List (Gate R) → List (Gate R) × Nat
  | [] => ([], 0)
  | g :: rest => bubbleFrom g rest

/-- The gates in the order of their layers, and the number of layers. -/
def layer (gates : List (Gate R)) (numQubits : Nat) : List (Gate R) × Nat :=
  let groups := Layers.group gates numQubits
  (groups.flatten.filterMap fun i => gates[i]?, groups.length)

end Rewrite

end QubitLab
