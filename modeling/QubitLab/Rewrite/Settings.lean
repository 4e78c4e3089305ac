import QubitLab.Circuit.Stored
import QubitLab.Json.Writer

/-!
# Settings of the rewriter

Which passes are made, and how many rounds of them at most.

## Main definitions

* `RewriteSettings`: The settings.
* `RewriteSettings.full`, `RewriteSettings.gateCountOnly`,
  `RewriteSettings.depthOnly`, `RewriteSettings.mappingOnly`: The presets.
* `RewriteSettings.validate`: The check.
* `RewriteSettings.parse`, `RewriteSettings.stored`: The stored form.
-/

namespace QubitLab

/-- Which passes are made, in the order in which they are made, and how many rounds
    at most. -/
structure RewriteSettings where
  /-- Inverse gates are cancelled. -/
  cancellation : Bool
  /-- Rotations are fused. -/
  merging : Bool
  /-- Gates are bubbled. -/
  commutation : Bool
  /-- Gates are put in the order of their layers. -/
  layering : Bool
  /-- Qubits are relabelled by usage. -/
  relabeling : Bool
  /-- The greatest number of rounds. -/
  maxRounds : Nat
deriving DecidableEq, Repr

namespace RewriteSettings

/-- Every pass, and up to eight rounds. -/
def full : RewriteSettings := ⟨true, true, true, true, true, 8⟩

/-- The passes that take gates out. -/
def gateCountOnly : RewriteSettings :=
  { full with commutation := false, layering := false, relabeling := false }

/-- The pass that puts gates in the order of their layers. -/
def depthOnly : RewriteSettings :=
  { full with
    cancellation := false, merging := false, commutation := false, relabeling := false }

/-- The pass that relabels. -/
def mappingOnly : RewriteSettings :=
  { full with
    cancellation := false, merging := false, commutation := false, layering := false }

/-- The switches, in the order of the passes. -/
def switches (s : RewriteSettings) : List Bool :=
  [s.cancellation, s.merging, s.commutation, s.layering, s.relabeling]

/-- The number of passes that are made. -/
def enabledPasses (s : RewriteSettings) : Nat := s.switches.count true

/-- The check that there may be a round at all. -/
def validate {R : Type} (s : RewriteSettings) : Except (Error R) Unit :=
  if s.maxRounds = 0 then .error (.invalidConfig .noRounds) else .ok ()

/-- The JSON form. -/
def toJson (s : RewriteSettings) : Json :=
  Json.record
    [("cancellation", .bool s.cancellation), ("merging", .bool s.merging),
      ("commutation", .bool s.commutation), ("layering", .bool s.layering),
      ("relabeling", .bool s.relabeling), ("max_rounds", Json.ofNat s.maxRounds)]

/-- The settings of a JSON value, not checked. Fields that are missing are taken
    from the full settings. -/
def ofJson? (j : Json) : Option RewriteSettings := do
  let names := ["cancellation", "merging", "commutation", "layering", "relabeling",
    "max_rounds"]
  match ← Json.fields? names j with
  | [cancellation, merging, commutation, layering, relabeling, maxRounds] =>
    let cancellation ← Json.withDefault? Json.truth? full.cancellation cancellation
    let merging ← Json.withDefault? Json.truth? full.merging merging
    let commutation ← Json.withDefault? Json.truth? full.commutation commutation
    let layering ← Json.withDefault? Json.truth? full.layering layering
    let relabeling ← Json.withDefault? Json.truth? full.relabeling relabeling
    let maxRounds ← Json.withDefault? Json.natural? full.maxRounds maxRounds
    return ⟨cancellation, merging, commutation, layering, relabeling, maxRounds⟩
  | _ => none

/-- The settings of a JSON text, checked. -/
def parse {R : Type} (text : String) : Except (Error R) RewriteSettings := do
  let settings ← Json.decode ofJson? text
  settings.validate
  return settings

/-- The JSON text, over several lines. -/
def stored (s : RewriteSettings) : String := s.toJson.spread

/-- The sign of a switch. -/
def sign (on : Bool) : String := if on then "+" else "-"

/-- The settings for people to read. -/
def summary (s : RewriteSettings) : String :=
  "OptimizerConfig(" ++ sign s.cancellation ++ "cancel " ++ sign s.merging ++ "merge " ++
    sign s.commutation ++ "commute " ++ sign s.layering ++ "layer " ++
    sign s.relabeling ++ "relabel, rounds=" ++ toString s.maxRounds ++ ")"

end RewriteSettings

end QubitLab
