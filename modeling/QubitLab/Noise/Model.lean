import QubitLab.Circuit.Stored
import QubitLab.Json.Writer
import QubitLab.Noise.Channel
import QubitLab.Random.Source

/-!
# Noise models

A noise model is a channel with a rate, and possibly a matrix of the user's own
that takes the place of the channel's corrections. After a gate the simulator asks
the model, for each qubit that the gate touched, whether something goes wrong with
it; what goes wrong is a correction, a matrix that is then applied to that qubit.

## Main definitions

* `Correction`: What is applied to a qubit.
* `NoiseModel`: A channel, a rate, and possibly a matrix.
* `NoiseModel.ofRate`, `NoiseModel.withRate`, `NoiseModel.withCustom`: The checked
  ways to get one.
* `NoiseModel.sample`: Whether something goes wrong, and what.
* `NoiseEvent`: The record of it.
* `NoiseModel.parse`, `NoiseModel.toJson`: The stored form.
-/

namespace QubitLab

/-- What is applied to a qubit when something goes wrong. -/
inductive Correction (R : Type) where
  /-- Pauli X. -/
  | bitFlip
  /-- Pauli Y. -/
  | bitPhaseFlip
  /-- Pauli Z. -/
  | phaseFlip
  /-- The lowering operator. -/
  | decay
  /-- A matrix of the user's own. -/
  | custom (m : Matrix2 (Complex R))
deriving BEq, DecidableEq, Repr

namespace Correction

variable {R : Type} [Scalar R]

/-- The matrix that is applied. -/
def matrix : Correction R → Matrix2 (Complex R)
  | bitFlip => Unitary.pauliX
  | bitPhaseFlip => Unitary.pauliY
  | phaseFlip => Unitary.pauliZ
  | decay => Unitary.lowering
  | custom m => m

omit [Scalar R] in
/-- True when the matrix does not keep the norm, so that the state has to be
    scaled after it. -/
def needsRescaling : Correction R → Bool
  | decay | custom _ => true
  | _ => false

/-- The text of a complex number in a record. -/
def complexText (z : Complex Float) : String :=
  "Complex \x7b re: " ++ Decimal.Layout.guarded.text z.re ++ ", im: " ++
    Decimal.Layout.guarded.text z.im ++ " \x7d"

/-- The text of a row of a matrix in a record. -/
def rowText (row : List (Complex Float)) : String :=
  "[" ++ ", ".intercalate (row.map complexText) ++ "]"

/-- The text of a correction in a record. -/
def text : Correction Float → String
  | bitFlip => "BitFlip"
  | bitPhaseFlip => "BitPhaseFlip"
  | phaseFlip => "PhaseFlip"
  | decay => "Decay"
  | custom m => "Custom([" ++ ", ".intercalate (m.toRows.map rowText) ++ "])"

end Correction

/-- A channel, a rate, and possibly a matrix of the user's own. -/
structure NoiseModel (R : Type) where
  /-- The channel. -/
  channel : NoiseChannel
  /-- The probability that something goes wrong. -/
  rate : R
  /-- The matrix that takes the place of the channel's corrections. -/
  custom : Option (Matrix2 (Complex R))
deriving BEq, DecidableEq, Repr

/-- The record that something went wrong under a channel. -/
structure NoiseEvent (R : Type) where
  /-- The channel. -/
  channel : NoiseChannel
  /-- What is applied. -/
  correction : Correction R

namespace NoiseEvent

/-- The text of the record. -/
def message (e : NoiseEvent Float) : String :=
  let what := match e.correction with
    | .custom _ => "custom correction"
    | c => c.text
  "noise event on " ++ e.channel.name ++ ": " ++ what

end NoiseEvent

namespace NoiseModel

variable {R : Type} [Scalar R]

/-- The check of a matrix of the user's own: its entries are numbers, and they are
    not all zero. -/
def checkCustom (m : Matrix2 (Complex R)) : Except (Error R) Unit :=
  if m.entries.any fun z => !z.isFinite then .error (.invalidArgument .noiseNotFinite)
  else if Scalar.le ((m.entries.map Complex.normSq).foldl (· + ·) 0) Scalar.zeroNorm then
    .error (.invalidArgument .noiseZero)
  else .ok ()

/-- The check of the rate, and then of the matrix. -/
def validate (model : NoiseModel R) : Except (Error R) Unit := do
  let _ ← Probability.ofScalar model.rate
  match model.custom with
  | some m => checkCustom m
  | none => return ()

/-- The model of a channel at a rate. -/
def ofRate (channel : NoiseChannel) (rate : R) : Except (Error R) (NoiseModel R) := do
  let model : NoiseModel R := ⟨channel, rate, none⟩
  model.validate
  return model

/-- The model with another rate. -/
def withRate (model : NoiseModel R) (rate : R) : Except (Error R) (NoiseModel R) := do
  let model := { model with rate }
  model.validate
  return model

/-- The two by two matrix with the given rows, after a check of its size and of its
    entries. -/
def customMatrix (rows : Rows (Complex R)) : Except (Error R) (Matrix2 (Complex R)) := do
  Gate.checkSide rows 2
  match rows with
  | [[a, b], [c, d]] =>
    let m : Matrix2 (Complex R) := ⟨a, b, c, d⟩
    checkCustom m
    return m
  | _ => .error (.dimensionMismatch 2 rows.length)

/-- The model with a matrix of the user's own. -/
def withCustom (model : NoiseModel R) (rows : Rows (Complex R)) :
    Except (Error R) (NoiseModel R) := do
  let m ← customMatrix rows
  return { model with custom := some m }

omit [Scalar R] in
/-- The model with the channel's own corrections. -/
def withoutCustom (model : NoiseModel R) : NoiseModel R := { model with custom := none }

/-- True when nothing ever goes wrong. -/
def isNoiseless (model : NoiseModel R) : Bool := Scalar.same model.rate 0

/-- The operators of the channel at the rate. -/
def krausOperators (model : NoiseModel R) :
    Except (Error R) (List (Matrix2 (Complex R))) :=
  model.channel.krausOperators model.rate

variable {G : Type} [RandomSource R G]

omit [Scalar R] in
/-- The correction of a channel when something goes wrong. Only the depolarizing
    channel leaves a choice. -/
def channelCorrection (channel : NoiseChannel) (g : G) : Correction R × G :=
  match channel with
  | .depolarizing =>
    let (k, g) := RandomSource.third (R := R) g
    (match k with
      | 0 => .bitFlip
      | 1 => .bitPhaseFlip
      | 2 => .phaseFlip, g)
  | .amplitudeDamping => (.decay, g)
  | .phaseDamping | .phaseFlip => (.phaseFlip, g)
  | .bitFlip => (.bitFlip, g)
  | .bitPhaseFlip => (.bitPhaseFlip, g)

/-- Whether something goes wrong, and what. A model whose rate is not above zero
    draws nothing. -/
def sample (model : NoiseModel R) (g : G) : Option (Correction R) × G :=
  if Scalar.le model.rate 0 then (none, g)
  else
    let (r, g) := RandomSource.unit g
    if Scalar.le model.rate r then (none, g)
    else
      match model.custom with
      | some m => (some (.custom m), g)
      | none =>
        let (c, g) := channelCorrection model.channel g
        (some c, g)

/-- A number of samples one after the other. -/
def samples (model : NoiseModel R) : Nat → G → List (Option (Correction R)) × G
  | 0, g => ([], g)
  | n + 1, g =>
    let (c, g) := model.sample g
    let (rest, g) := model.samples n g
    (c :: rest, g)

omit [Scalar R] in
/-- The records of samples. -/
def events (model : NoiseModel R) (drawn : List (Option (Correction R))) :
    List (NoiseEvent R) :=
  drawn.filterMap fun c => c.map (⟨model.channel, ·⟩)

section Stored

variable [RealText R]

omit [Scalar R] in
/-- The JSON form; the matrix is written only when there is one. -/
def toJson (model : NoiseModel R) : Json :=
  let plain := [("channel", model.channel.toJson), ("error_rate", Json.ofReal model.rate)]
  match model.custom with
  | none => Json.record plain
  | some m => Json.record (plain ++ [("custom", m.toJson)])

omit [Scalar R] in
/-- The model of a JSON value, not checked. -/
def ofJson? (j : Json) : Option (NoiseModel R) := do
  match ← Json.fields? ["channel", "error_rate", "custom"] j with
  | [channel, rate, custom] =>
    let channel ← Json.required? NoiseChannel.ofJson? channel
    let rate ← Json.required? Json.real? rate
    let custom ← Json.withDefault? (Json.optional? Matrix2.ofJson?) none custom
    return ⟨channel, rate, custom⟩
  | _ => none

/-- The model of a JSON text, checked. -/
def parse (text : String) : Except (Error R) (NoiseModel R) := do
  let model ← Json.decode ofJson? text
  model.validate
  return model

omit [Scalar R] in
/-- The JSON text. -/
def stored (model : NoiseModel R) : String := model.toJson.compact

end Stored

/-- The model for people to read, the rate with four places. -/
def summary (model : NoiseModel Float) : String :=
  "NoiseModel(" ++ model.channel.name ++ ", rate=" ++ Decimal.fixedText 4 model.rate ++
    (if model.custom.isSome then ", custom" else "") ++ ")"

end NoiseModel

end QubitLab
