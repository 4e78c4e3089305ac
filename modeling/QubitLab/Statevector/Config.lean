import QubitLab.Noise.Model
import QubitLab.Statevector.Size

/-!
# Simulator configurations

The width of the register, the noise if any, and the seed if any.

## Main definitions

* `SimulatorConfig`: A configuration.
* `SimulatorConfig.ideal`, `SimulatorConfig.noisy`: Without and with noise.
* `SimulatorConfig.validate`: The check.
* `SimulatorConfig.parse`, `SimulatorConfig.stored`: The stored form.
-/

namespace QubitLab

/-- How a simulator is to be set up. -/
structure SimulatorConfig (R : Type) where
  /-- The number of qubits. -/
  numQubits : Nat
  /-- The noise after every gate. -/
  noise : Option (NoiseModel R)
  /-- The seed of the random numbers. -/
  seed : Option UInt64
deriving BEq, DecidableEq, Repr

namespace SimulatorConfig

variable {R : Type}

/-- The configuration without noise. -/
def ideal (numQubits : Nat) : SimulatorConfig R := ⟨numQubits, none, none⟩

/-- The configuration that is used when none is given. -/
def standard : SimulatorConfig R := ideal 2

/-- The configuration with another seed. -/
def withSeed (c : SimulatorConfig R) (seed : UInt64) : SimulatorConfig R :=
  { c with seed := some seed }

/-- The configuration with noise. -/
def withNoise (c : SimulatorConfig R) (model : NoiseModel R) : SimulatorConfig R :=
  { c with noise := some model }

/-- The configuration without noise, all else kept. -/
def withoutNoise (c : SimulatorConfig R) : SimulatorConfig R := { c with noise := none }

/-- The configuration with another width. -/
def withQubits (c : SimulatorConfig R) (numQubits : Nat) : SimulatorConfig R :=
  { c with numQubits }

section Checks

variable [Scalar R]

/-- The configuration of a channel at a rate. -/
def noisy (numQubits : Nat) (channel : NoiseChannel) (rate : R) :
    Except (Error R) (SimulatorConfig R) := do
  let model ← NoiseModel.ofRate channel rate
  return ⟨numQubits, some model, none⟩

/-- The check of the width, and then of the noise. -/
def validate (c : SimulatorConfig R) : Except (Error R) Unit :=
  if c.numQubits = 0 then .error (.invalidConfig .noQubits)
  else if (Statevector.dimension? c.numQubits).isNone then
    .error (.invalidConfig (.tooManyQubits c.numQubits))
  else
    match c.noise with
    | some model => model.validate
    | none => .ok ()

end Checks

section Stored

variable [RealText R]

/-- The JSON form of a value that may be absent. -/
def optionToJson {α : Type} (toJson : α → Json) : Option α → Json
  | some a => toJson a
  | none => .null

/-- The JSON form. -/
def toJson (c : SimulatorConfig R) : Json :=
  Json.record
    [("num_qubits", Json.ofNat c.numQubits), ("noise", optionToJson NoiseModel.toJson c.noise),
      ("seed", optionToJson (fun s : UInt64 => Json.ofNat s.toNat) c.seed)]

/-- A seed: any whole number in range. -/
def seed? (j : Json) : Option UInt64 := (Json.natural? j).map UInt64.ofNat

/-- The configuration of a JSON value, not checked. -/
def ofJson? (j : Json) : Option (SimulatorConfig R) := do
  match ← Json.fields? ["num_qubits", "noise", "seed"] j with
  | [numQubits, noise, seed] =>
    let numQubits ← Json.required? Json.natural? numQubits
    let noise ← Json.withDefault? (Json.optional? NoiseModel.ofJson?) none noise
    let seed ← Json.withDefault? (Json.optional? seed?) none seed
    return ⟨numQubits, noise, seed⟩
  | _ => none

/-- The configuration of a JSON text, checked. -/
def parse [Scalar R] (text : String) : Except (Error R) (SimulatorConfig R) := do
  let config ← Json.decode ofJson? text
  config.validate
  return config

/-- The JSON text, over several lines. -/
def stored (c : SimulatorConfig R) : String := c.toJson.spread

end Stored

/-- The configuration for people to read. -/
def summary (c : SimulatorConfig Float) : String :=
  let noise := match c.noise with
    | some model => model.summary
    | none => "ideal"
  let seed := match c.seed with
    | some seed => s!" seed={seed}"
    | none => ""
  "EngineConfig(" ++ toString c.numQubits ++ "Q, " ++ noise ++ ")" ++ seed

end SimulatorConfig

end QubitLab
