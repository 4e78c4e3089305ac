import QubitLab.Proofs.Checks
import QubitLab.Proofs.Json.Stored

/-!
# Storing loses nothing

What the library stores as JSON it reads back as it was, from either layout. Gates and circuits
are not checked when they are read, so this holds of any of them, also of those that no
simulator would take. Noise models and configurations are checked, so it holds of those that
are valid.

What has to be assumed about literals is assumed of the finite scalars only, since others have
none. A valid noise model holds finite scalars: the entries of its matrix are checked, and its
rate lies between zero and one.

## Main definitions

* `UnitFinite`: What lies between zero and one is finite.
* `Json.ExactOn`: The literals of finite scalars are read as these scalars.
* `Json.Lossless`: Both layouts of a value are read as this value.

## Theorems

* `NoiseModel.finite_of_valid`, `SimulatorConfig.finite_of_valid`: Valid values hold finite
  scalars.
* `lossless_decode`, `lossless_checked`: From JSON values to texts.
* `stored_values_read_back`: All of it in one.
-/

namespace QubitLab

section Valid

variable {R : Type} [Scalar R]

/-- Scalars of which those between zero and one are finite. -/
class UnitFinite (R : Type) [Scalar R] : Prop where
  isFinite_of_unit {x : R} : Scalar.le 0 x = true → Scalar.le x 1 = true →
    Scalar.isFinite x = true

/-- A double that compares with two numbers is a number, and one that is above zero and below
    one is not infinite. -/
instance : UnitFinite Float where
  isFinite_of_unit {x} hzero hone := by
    have hbelow : (0 : Float).toModel.unpack.le x.toModel.unpack = true :=
      of_decide_eq_true (of_decide_eq_true hzero)
    have habove : x.toModel.unpack.le (1 : Float).toModel.unpack = true :=
      of_decide_eq_true (of_decide_eq_true hone)
    have hunpackZero : (0 : Float).toModel.unpack = .zero .positive := rfl
    obtain ⟨m, e, hm, hunpackOne⟩ :
        ∃ m e hm, (1 : Float).toModel.unpack = .finite .positive m e hm := ⟨_, _, _, rfl⟩
    rw [hunpackZero] at hbelow
    rw [hunpackOne] at habove
    change x.toModel.unpack.isFinite = true
    revert hbelow habove
    cases x.toModel.unpack with
    | zero sign => exact fun _ _ => rfl
    | finite sign m e hm => exact fun _ _ => rfl
    | notANumber => exact fun hbelow _ => absurd hbelow Bool.false_ne_true
    | infinity sign =>
        cases sign with
        | positive => exact fun _ habove => absurd habove Bool.false_ne_true
        | negative => exact fun hbelow _ => absurd hbelow Bool.false_ne_true

theorem Probability.unit_of_ofScalar {x : R} {p : Probability R} (h : ofScalar x = .ok p) :
    Scalar.le 0 x = true ∧ Scalar.le x 1 = true := by
  by_cases hunit : Scalar.le 0 x = true ∧ Scalar.le x 1 = true
  · exact hunit
  · rw [ofScalar, dif_neg hunit] at h
    exact absurd h (by simp)

theorem NoiseModel.isFinite_of_checkCustom {m : Matrix2 (Complex R)}
    (h : checkCustom m = .ok ()) : ∀ z ∈ m.entries, z.isFinite = true := by
  intro z hz
  by_contra hnot
  rw [checkCustom, if_pos (List.any_eq_true.mpr ⟨z, hz, by simpa using hnot⟩)] at h
  exact absurd h (by simp)

theorem NoiseModel.finite_of_valid [UnitFinite R] {model : NoiseModel R}
    (h : model.validate = .ok ()) : ∀ x ∈ model.scalars, Scalar.isFinite x = true := by
  rw [validate, Checks.bind_eq_ok] at h
  rcases h with ⟨p, hrate, hcustom⟩
  have hunit := Probability.unit_of_ofScalar hrate
  intro x hx
  rcases List.mem_cons.mp hx with rfl | hx
  · exact UnitFinite.isFinite_of_unit hunit.1 hunit.2
  · rcases List.mem_flatMap.mp hx with ⟨m, hm, hx⟩
    rcases List.mem_flatMap.mp hx with ⟨z, hz, hx⟩
    rw [Option.mem_toList.mp hm] at hcustom
    have hfinite : z.isFinite = true := isFinite_of_checkCustom hcustom z hz
    rw [Complex.isFinite, Bool.and_eq_true] at hfinite
    rcases List.mem_cons.mp hx with rfl | hx
    · exact hfinite.1
    · rw [List.mem_singleton.mp hx]
      exact hfinite.2

theorem SimulatorConfig.finite_of_valid [UnitFinite R] {c : SimulatorConfig R}
    (h : c.validate = .ok ()) : ∀ x ∈ c.scalars, Scalar.isFinite x = true := by
  intro x hx
  rcases List.mem_flatMap.mp hx with ⟨model, hmodel, hx⟩
  rw [validate] at h
  split at h
  · exact absurd h (by simp)
  · split at h
    · exact absurd h (by simp)
    · rw [Option.mem_toList.mp hmodel] at h
      exact model.finite_of_valid h x hx

/-- A register that can be addressed has fewer qubits than a word has bits. -/
theorem SimulatorConfig.numQubits_lt_of_valid {c : SimulatorConfig R}
    (h : c.validate = .ok ()) : c.numQubits < Json.wordLimit := by
  have hbits : c.numQubits < 64 := by
    by_contra hwide
    -- From there on the number of amplitudes is not even computed.
    have hnone : Statevector.dimension? c.numQubits = none := if_neg fun hsmall => hwide hsmall.1
    rw [validate, if_neg (by omega), hnone] at h
    exact absurd h (by simp)
  rw [Json.wordLimit]
  omega

end Valid

namespace Json

section Texts

/-- Both layouts of the value are read as the value. -/
structure Lossless {ε α : Type} (toJson : α → Json) (parse : String → Except ε α) (a : α) :
    Prop where
  /-- On one line. -/
  compact : parse (toJson a).compact = .ok a
  /-- Over several lines. -/
  spread : parse (toJson a).spread = .ok a

variable {R α : Type} {toJson : α → Json} {value? : Json → Option α} {a : α}

theorem lossless_decode (h : Recovers value? (toJson a) a) :
    Lossless toJson (decode value? : String → Except (Error R) α) a :=
  ⟨decode_compact h, decode_spread h⟩

/-- A check after the reading lets a valid value pass. -/
theorem lossless_checked {check : α → Except (Error R) Unit} (h : Recovers value? (toJson a) a)
    (hcheck : check a = .ok ()) :
    Lossless toJson (fun text => do
      let b ← decode value? text
      check b
      return b) a := by
  constructor
  · rw [decode_compact h]
    change (check a).bind _ = _
    rw [hcheck]
    rfl
  · rw [decode_spread h]
    change (check a).bind _ = _
    rw [hcheck]
    rfl

variable [Scalar R] [RealText R]

/-- The finite ones among the scalars have literals that are read as these scalars. -/
def ExactOn (xs : List R) : Prop := ∀ x ∈ xs, Scalar.isFinite x = true → ReadsBack x

instance [DecidableEq R] (xs : List R) : Decidable (ExactOn xs) :=
  inferInstanceAs (Decidable (∀ x ∈ xs, Scalar.isFinite x = true → ReadsBack x))

/-- Stored gates and circuits are read back, whatever they are, as long as their numbers can be
    written. Stored noise models and configurations are read back and found valid if they are
    valid. -/
theorem stored_values_read_back [UnitFinite R] :
    (∀ g : Gate R, (∀ q ∈ g.qubits, q < wordLimit) →
      (∀ x ∈ g.scalars, Scalar.isFinite x = true) → ExactOn g.scalars →
      Lossless Gate.toJson (decode Gate.ofJson? : String → Except (Error R) (Gate R)) g) ∧
    (∀ c : Circuit R, (∀ n ∈ c.words, n < wordLimit) →
      (∀ x ∈ c.scalars, Scalar.isFinite x = true) → ExactOn c.scalars →
      Lossless Circuit.toJson (decode Circuit.ofJson? : String → Except (Error R) (Circuit R)) c) ∧
    (∀ model : NoiseModel R, model.validate = .ok () → ExactOn model.scalars →
      Lossless NoiseModel.toJson NoiseModel.parse model ∧
        NoiseModel.parse model.stored = .ok model) ∧
    (∀ c : SimulatorConfig R, c.validate = .ok () → ExactOn c.scalars →
      Lossless SimulatorConfig.toJson SimulatorConfig.parse c ∧
        SimulatorConfig.parse c.stored = .ok c) ∧
    (∀ s : RewriteSettings, s.validate = (.ok () : Except (Error R) Unit) →
      s.maxRounds < wordLimit →
      Lossless RewriteSettings.toJson (RewriteSettings.parse (R := R)) s ∧
        RewriteSettings.parse s.stored = (.ok s : Except (Error R) RewriteSettings)) := by
  refine ⟨fun g hwords hfinite hexact => ?_, fun c hwords hfinite hexact => ?_,
    fun model hvalid hexact => ?_, fun c hvalid hexact => ?_, fun s hvalid hrounds => ?_⟩
  · exact lossless_decode (recovers_gate hwords fun x hx => hexact x hx (hfinite x hx))
  · exact lossless_decode (recovers_circuit hwords fun x hx => hexact x hx (hfinite x hx))
  · -- The check before the writing is the one after the reading.
    have hreads : ∀ x ∈ model.scalars, ReadsBack x := fun x hx =>
      hexact x hx (model.finite_of_valid hvalid x hx)
    have hlossless : Lossless NoiseModel.toJson NoiseModel.parse model :=
      lossless_checked (recovers_noiseModel hreads) hvalid
    exact ⟨hlossless, hlossless.compact⟩
  · have hreads : ∀ x ∈ c.scalars, ReadsBack x := fun x hx =>
      hexact x hx (c.finite_of_valid hvalid x hx)
    have hlossless : Lossless SimulatorConfig.toJson SimulatorConfig.parse c :=
      lossless_checked (recovers_config (c.numQubits_lt_of_valid hvalid) hreads) hvalid
    exact ⟨hlossless, hlossless.spread⟩
  · have hlossless : Lossless RewriteSettings.toJson (RewriteSettings.parse (R := R)) s :=
      lossless_checked (recovers_settings hrounds) hvalid
    exact ⟨hlossless, hlossless.spread⟩

/-- A gate on the same qubit twice, whose matrix is none, under a name with a quote, a backslash
    and control characters. -/
def oddGate : Gate Float :=
  ⟨.custom, [3, 3], [0.1, -0.0], some ⟨"\"π\\\u0007\n", [[⟨-2.25, 1e300⟩], []]⟩⟩

/-- A circuit without qubits around such a gate. -/
def oddCircuit : Circuit Float :=
  ⟨0, 1, [oddGate, ⟨.cu1, [], [5e-324], none⟩], [(18446744073709551615, 0)], some ""⟩

/-- Noise with a matrix. -/
def loweringNoise : NoiseModel Float := ⟨.bitPhaseFlip, 0.25, some ⟨0, 1, 0, 0⟩⟩

/-- A configuration with noise and the greatest seed. -/
def seededConfig : SimulatorConfig Float := ⟨3, some loweringNoise, some 18446744073709551615⟩

theorem odd_values_read_back :
    Lossless Gate.toJson (decode Gate.ofJson? : String → Except (Error Float) _) oddGate ∧
    Lossless Circuit.toJson (decode Circuit.ofJson? : String → Except (Error Float) _) oddCircuit ∧
    NoiseModel.parse loweringNoise.stored = .ok loweringNoise ∧
    SimulatorConfig.parse seededConfig.stored = .ok seededConfig ∧
    RewriteSettings.parse RewriteSettings.depthOnly.stored
      = (.ok RewriteSettings.depthOnly : Except (Error Float) RewriteSettings) := by
  obtain ⟨hgate, hcircuit, hmodel, hconfig, hsettings⟩ := stored_values_read_back (R := Float)
  refine ⟨hgate oddGate ?_ ?_ ?_, hcircuit oddCircuit ?_ ?_ ?_, (hmodel loweringNoise ?_ ?_).2,
    (hconfig seededConfig ?_ ?_).2, (hsettings .depthOnly ?_ ?_).2⟩
  all_goals decide +kernel

end Texts

end Json

end QubitLab
