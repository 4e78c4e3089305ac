import QubitLab.Json.Writer

/-!
# Reports of the rewriter

What a number of rounds changed. Reports of rounds one after the other are joined:
what was counted adds up, what describes the circuit is taken from the last round,
and the mappings are composed.

## Main definitions

* `RewriteReport`: What was changed.
* `RewriteReport.absorb`: The report of some rounds and one more.
* `RewriteReport.stored`, `RewriteReport.summary`: Its texts.
-/

namespace QubitLab

/-- What a number of rounds changed. -/
structure RewriteReport where
  /-- The number of gates at the start. -/
  gatesBefore : Nat
  /-- The number of gates at the end. -/
  gatesAfter : Nat
  /-- The number of layers at the start. -/
  depthBefore : Nat
  /-- The number of layers at the end. -/
  depthAfter : Nat
  /-- The number of gates that were cancelled. -/
  cancelled : Nat
  /-- The number of fusions. -/
  merged : Nat
  /-- The number of changes of place. -/
  commuted : Nat
  /-- The number of layers that the last layering saw. -/
  layers : Nat
  /-- The number of rounds. -/
  rounds : Nat
  /-- The new label of each qubit, when there was a relabelling. -/
  mapping : Option (List Nat)
deriving DecidableEq, Repr

namespace RewriteReport

/-- The number of gates that are gone, and zero if there are more than before. -/
def removed (r : RewriteReport) : Nat := r.gatesBefore - r.gatesAfter

/-- The number of layers that are gone, and zero if there are more than before. -/
def depthReduction (r : RewriteReport) : Nat := r.depthBefore - r.depthAfter

/-- True when the circuit became smaller. -/
def isImproved (r : RewriteReport) : Bool :=
  r.gatesAfter < r.gatesBefore || r.depthAfter < r.depthBefore

/-- The mapping of two relabellings one after the other, either of which may be
    missing. -/
def composeMappings : Option (List Nat) → Option (List Nat) → Option (List Nat)
  | some first, some second => some (first.map fun q => second.getD q 0)
  | first, second => second.or first

/-- The report of some rounds and one more. -/
def absorb (r round : RewriteReport) : RewriteReport where
  gatesBefore := r.gatesBefore
  gatesAfter := round.gatesAfter
  depthBefore := r.depthBefore
  depthAfter := round.depthAfter
  cancelled := r.cancelled + round.cancelled
  merged := r.merged + round.merged
  commuted := r.commuted + round.commuted
  layers := round.layers
  rounds := r.rounds + round.rounds
  mapping := composeMappings r.mapping round.mapping

/-- A list of numbers between brackets. -/
def listText (ns : List Nat) : String := "[" ++ ", ".intercalate (ns.map toString) ++ "]"

/-- The JSON form. -/
def toJson (r : RewriteReport) : Json :=
  Json.record
    [("gates_before", Json.ofNat r.gatesBefore), ("gates_after", Json.ofNat r.gatesAfter),
      ("depth_before", Json.ofNat r.depthBefore), ("depth_after", Json.ofNat r.depthAfter),
      ("cancelled", Json.ofNat r.cancelled), ("merged", Json.ofNat r.merged),
      ("commuted", Json.ofNat r.commuted), ("layers", Json.ofNat r.layers),
      ("rounds", Json.ofNat r.rounds),
      ("mapping", match r.mapping with
        | some mapping => .array (mapping.map Json.ofNat)
        | none => .null)]

/-- The JSON text, over several lines. -/
def stored (r : RewriteReport) : String := r.toJson.spread

/-- The report for people to read. -/
def summary (r : RewriteReport) : String :=
  let mapping := match r.mapping with
    | some mapping => ["  mapping: " ++ listText mapping]
    | none => []
  "\n".intercalate <|
    ["Optimization Report",
      "  gates:  " ++ toString r.gatesBefore ++ " -> " ++ toString r.gatesAfter,
      "  depth:  " ++ toString r.depthBefore ++ " -> " ++ toString r.depthAfter,
      s!"  passes: cancelled={r.cancelled} merged={r.merged} commuted={r.commuted} " ++
        "layers=" ++ toString r.layers,
      "  rounds: " ++ toString r.rounds] ++ mapping

end RewriteReport

end QubitLab
