import QubitLab.Rewrite.Fuse
import QubitLab.Rewrite.Reorder
import QubitLab.Rewrite.Report
import QubitLab.Rewrite.Settings
import QubitLab.Rewrite.Usage

/-!
# Rewriting circuits

A round makes the enabled passes in a fixed order: cancelling, fusing, bubbling,
layering, relabelling. The passes on the gates work on a copy of them, which takes
the place of the gates when all of these passes have succeeded.

Rounds can be repeated until the number of gates no longer changes.

## Main definitions

* `RewriteRecord`: What a round notes down.
* `Rewrite.round`: One round.
* `Rewrite.untilStable`: Rounds until nothing changes.
* `Rewrite.checked`: A rewriting under settings that are checked first.
* `Rewrite.optimize`, `Rewrite.optimizeGateCount`, `Rewrite.optimizeDepth`,
  `Rewrite.optimizeMapping`: Rounds with preset settings.
-/

namespace QubitLab

/-- What the rewriter notes down. -/
inductive RewriteRecord where
  /-- Gates were cancelled. -/
  | cancelled (count left : Nat)
  /-- Rotations were fused. -/
  | fused (count left : Nat)
  /-- Gates changed places. -/
  | bubbled (swaps : Nat)
  /-- Gates were put in the order of their layers. -/
  | layered (gates layers : Nat)
  /-- Qubits were relabelled. -/
  | relabelled (mapping : List Nat)
  /-- Rounds were repeated until nothing changed. -/
  | stable (gatesBefore gatesAfter rounds : Nat)
deriving DecidableEq, Repr

namespace RewriteRecord

/-- The text of the record. -/
def message : RewriteRecord → String
  | cancelled count left => s!"cancellation: removed {count} gates, {left} left"
  | fused count left => s!"merging: fused {count} pairs, {left} left"
  | bubbled swaps => s!"commutation: {swaps} swaps"
  | layered gates layers => s!"layering: {gates} gates in {layers} layers"
  | relabelled mapping => "relabeling: mapping " ++ RewriteReport.listText mapping
  | stable gatesBefore gatesAfter rounds =>
    s!"optimize_until_stable: {gatesBefore} -> {gatesAfter} gates in {rounds} rounds"

end RewriteRecord

namespace Rewrite

variable {R : Type}

/-- A rewriting of a circuit. -/
abbrev Rewriting (R α : Type) := Transition (Error R) RewriteRecord (Circuit R) α

/-- An edit as a rewriting. -/
def ofEdit {α : Type} (edit : Circuit.Edit R α) : Rewriting R α :=
  Transition.mapJournal Empty.elim edit

/-- What the passes on the gates of a circuit lead to. -/
structure Passed (R : Type) where
  /-- The gates. -/
  gates : List (Gate R)
  /-- The number of gates that were cancelled. -/
  cancelled : Nat
  /-- The number of fusions. -/
  merged : Nat
  /-- The number of changes of place. -/
  commuted : Nat
  /-- The number of layers, when there was a layering. -/
  layers : Nat

/-- The pass that cancels, if it is enabled. -/
def cancelPass (enabled : Bool) (p : Passed R) : Rewriting R (Passed R) :=
  if enabled then do
    let (gates, count) := cancel p.gates
    Transition.note (.cancelled count gates.length)
    return { p with gates, cancelled := count }
  else return p

/-- The pass that fuses, if it is enabled. -/
def fusePass [Scalar R] (enabled : Bool) (p : Passed R) : Rewriting R (Passed R) :=
  if enabled then do
    let (gates, result) := fuse p.gates
    let count ← Transition.require result
    Transition.note (.fused count gates.length)
    return { p with gates, merged := count }
  else return p

/-- The pass that bubbles, if it is enabled. -/
def bubblePass (enabled : Bool) (p : Passed R) : Rewriting R (Passed R) :=
  if enabled then do
    let (gates, swaps) := bubble p.gates
    Transition.note (.bubbled swaps)
    return { p with gates, commuted := swaps }
  else return p

/-- The pass that layers, if it is enabled. -/
def layerPass (enabled : Bool) (numQubits : Nat) (p : Passed R) :
    Rewriting R (Passed R) :=
  if enabled then do
    let (gates, layers) := layer p.gates numQubits
    Transition.note (.layered gates.length layers)
    return { p with gates, layers }
  else return p

/-- The pass that relabels, if it is enabled. -/
def relabelPass (enabled : Bool) : Rewriting R (Option (List Nat)) :=
  if enabled then do
    let mapping ← ofEdit Circuit.relabelByUsage
    Transition.note (.relabelled mapping)
    return some mapping
  else return none

variable [Scalar R]

/-- One round. The circuit is checked first. -/
def round (s : RewriteSettings) : Rewriting R RewriteReport := do
  let before ← Transition.current
  Transition.require before.validate
  let p ← cancelPass s.cancellation ⟨before.gates, 0, 0, 0, 0⟩
  let p ← fusePass s.merging p
  let p ← bubblePass s.commutation p
  let p ← layerPass s.layering before.numQubits p
  ofEdit (Circuit.setGates p.gates)
  let mapping ← relabelPass s.relabeling
  let after ← Transition.current
  return {
    gatesBefore := before.size
    gatesAfter := after.size
    depthBefore := before.depth
    depthAfter := after.depth
    cancelled := p.cancelled
    merged := p.merged
    commuted := p.commuted
    layers := p.layers
    rounds := 1
    mapping }

/-- More rounds, at most so many, until the number of gates no longer changes. -/
def moreRounds (s : RewriteSettings) : Nat → RewriteReport → Rewriting R RewriteReport
  | 0, total => return total
  | n + 1, total => do
    let before ← Transition.reading Circuit.size
    let report ← round s
    let total := total.absorb report
    let after ← Transition.reading Circuit.size
    if after = before then return total else moreRounds s n total

/-- Rounds until the number of gates no longer changes, at most as many as the
    settings allow. -/
def untilStable (s : RewriteSettings) : Rewriting R RewriteReport := do
  let first ← round s
  let total ← moreRounds s (s.maxRounds - 1) first
  Transition.note (.stable total.gatesBefore total.gatesAfter total.rounds)
  return total

omit [Scalar R] in
/-- A rewriting under settings that are checked first. -/
def checked {α : Type} (s : RewriteSettings) (rewriting : RewriteSettings → Rewriting R α) :
    Rewriting R α := do
  Transition.require s.validate
  rewriting s

/-- One round of every pass. -/
def optimize : Rewriting R RewriteReport := round .full

/-- One round of the passes that take gates out. -/
def optimizeGateCount : Rewriting R RewriteReport := round .gateCountOnly

/-- One round of the pass that layers. -/
def optimizeDepth : Rewriting R RewriteReport := round .depthOnly

omit [Scalar R] in
/-- The relabelling by usage alone. The circuit is not checked. -/
def optimizeMapping : Rewriting R (List Nat) := ofEdit Circuit.relabelByUsage

end Rewrite

end QubitLab
