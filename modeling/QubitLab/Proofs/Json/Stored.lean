import QubitLab.Proofs.Json.Shapes
import QubitLab.Rewrite.Settings
import QubitLab.Statevector.Config

/-!
# Stored values

Each type of stored values fits the reader of the type: what is written for a gate, a circuit,
a noise model, a simulator configuration or the settings of the rewriter is read as the value
that it was written for. Fields that a writer leaves out are those with a default, and the
default is the value that was left out.

The numbers in a value are the only condition: whole numbers have to be words, and the literals
of scalars have to be read as these scalars. A value is not asked to be valid, so a gate may act
on qubits that no register has, and a matrix may have rows of different lengths.

## Main definitions

* `Gate.scalars`, `Circuit.scalars`, `NoiseModel.scalars`, `SimulatorConfig.scalars`: The
  scalars in a value.
* `Circuit.words`: The whole numbers in a circuit.

## Theorems

* `recovers_gate`, `recovers_circuit`: Gates and circuits.
* `recovers_noiseModel`, `recovers_config`: Noise models, and configurations with them.
* `recovers_settings`: The settings of the rewriter.
-/

namespace QubitLab

section Contents

variable {R : Type}

/-- The two parts. -/
def Complex.parts (z : Complex R) : List R := [z.re, z.im]

/-- The scalars in a matrix, row by row. -/
def Rows.scalars (m : Rows (Complex R)) : List R := m.flatten.flatMap Complex.parts

/-- The angles of a gate, and the scalars in its matrix. -/
def Gate.scalars (g : Gate R) : List R :=
  g.params ++ g.payload.toList.flatMap fun c => c.matrix.scalars

/-- The scalars in the gates. -/
def Circuit.scalars (c : Circuit R) : List R := c.gates.flatMap Gate.scalars

/-- The widths of a circuit, the qubits of its gates, and the numbers in its measurements. -/
def Circuit.words (c : Circuit R) : List Nat :=
  c.numQubits :: c.numClbits ::
    (c.gates.flatMap Gate.qubits ++ c.measurements.flatMap fun p => [p.1, p.2])

/-- The rate of a noise model, and the scalars in its matrix. -/
def NoiseModel.scalars (model : NoiseModel R) : List R :=
  model.rate :: model.custom.toList.flatMap fun m => Rows.scalars m.toRows

/-- The scalars in the noise. -/
def SimulatorConfig.scalars (c : SimulatorConfig R) : List R :=
  c.noise.toList.flatMap NoiseModel.scalars

/-- The qubits of a gate are among the whole numbers of its circuit. -/
theorem Circuit.qubit_mem_words {c : Circuit R} {g : Gate R} {q : Nat} (hg : g ∈ c.gates)
    (hq : q ∈ g.qubits) : q ∈ c.words := by
  have hmem : q ∈ c.gates.flatMap Gate.qubits := List.mem_flatMap.mpr ⟨g, hg, hq⟩
  simp [words, hmem]

/-- Both numbers of a measurement are among the whole numbers of its circuit. -/
theorem Circuit.measured_mem_words {c : Circuit R} {p : Nat × Nat} (hp : p ∈ c.measurements) :
    p.1 ∈ c.words ∧ p.2 ∈ c.words := by
  have hmem : ∀ n ∈ [p.1, p.2], n ∈ c.words := by
    intro n hn
    have hflat : n ∈ c.measurements.flatMap fun p => [p.1, p.2] :=
      List.mem_flatMap.mpr ⟨p, hp, hn⟩
    simp only [words, List.mem_cons, List.mem_append]
    exact Or.inr (Or.inr (Or.inr hflat))
  exact ⟨hmem p.1 (by simp), hmem p.2 (by simp)⟩

end Contents

namespace Json

section Gates

variable {R : Type} [RealText R]

/-- A complex number is written as the pair of its parts. -/
theorem recovers_complex {z : Complex R} (h : ∀ x ∈ z.parts, ReadsBack x) :
    Recovers Complex.ofJson? z.toJson z := by
  have hpair := recovers_pair (recovers_real (h z.re (by simp [Complex.parts])))
    (recovers_real (h z.im (by simp [Complex.parts])))
  refine ⟨hpair.textual, ?_⟩
  rw [Complex.ofJson?, Complex.toJson, hpair.read]
  rfl

/-- A matrix is a list of rows, whose lengths may differ. -/
theorem recovers_rows {m : Rows (Complex R)} (h : ∀ x ∈ m.scalars, ReadsBack x) :
    Recovers Rows.ofJson? (Rows.toJson m) m := by
  refine recovers_list fun row hrow => recovers_list fun z hz => recovers_complex fun x hx => ?_
  exact h x (List.mem_flatMap.mpr ⟨z, List.mem_flatten.mpr ⟨row, hrow, hz⟩, hx⟩)

/-- A matrix of two rows and columns is written as a pair of pairs. -/
theorem recovers_matrix2 {m : Matrix2 (Complex R)} (h : ∀ x ∈ Rows.scalars m.toRows, ReadsBack x) :
    Recovers Matrix2.ofJson? m.toJson m := by
  have hentry : ∀ z ∈ m.toRows.flatten, Recovers Complex.ofJson? z.toJson z := fun z hz =>
    recovers_complex fun x hx => h x (List.mem_flatMap.mpr ⟨z, hz, hx⟩)
  have hfirst := recovers_pair (hentry m.m00 (by simp [Matrix2.toRows]))
    (hentry m.m01 (by simp [Matrix2.toRows]))
  have hsecond := recovers_pair (hentry m.m10 (by simp [Matrix2.toRows]))
    (hentry m.m11 (by simp [Matrix2.toRows]))
  have hrows := recovers_pair hfirst hsecond
  refine ⟨hrows.textual, ?_⟩
  rw [Matrix2.ofJson?]
  -- Two rows of two entries are a pair of pairs.
  change (pair? _ _ (.array [.array [m.m00.toJson, m.m01.toJson],
    .array [m.m10.toJson, m.m11.toJson]])).bind _ = _
  rw [hrows.read]
  rfl

theorem recovers_kind (k : GateKind) : Recovers GateKind.ofJson? k.toJson k :=
  recovers_name (by cases k <;> decide +kernel)

theorem recovers_custom {c : CustomMatrix R} (h : ∀ x ∈ c.matrix.scalars, ReadsBack x) :
    Recovers CustomMatrix.ofJson? c.toJson c := by
  have hname := recovers_text c.name
  have hmatrix := recovers_rows h
  refine recovers_record (by simp) ?_ ?_
  · simp [hname.textual, hmatrix.textual]
  · simp [List.lookup_cons, hname.read, hmatrix.read]

/-- A gate is recovered from its kind, its qubits, its angles and its matrix, whatever these are. -/
theorem recovers_gate {g : Gate R} (hqubits : ∀ q ∈ g.qubits, q < wordLimit)
    (h : ∀ x ∈ g.scalars, ReadsBack x) : Recovers Gate.ofJson? g.toJson g := by
  have hkind := recovers_kind g.kind
  have hlabels := recovers_list fun q hq => recovers_natural (hqubits q hq)
  have hparams : Recovers _ _ g.params := recovers_list fun x hx =>
    recovers_real (h x (List.mem_append_left _ hx))
  rcases g with ⟨kind, qubits, params, payload⟩
  cases payload with
  | none =>
      -- The matrix is left out, and its default stands for none.
      refine recovers_record (by simp) ?_ ?_
      · simp [hkind.textual, hlabels.textual, hparams.textual]
      · simp [naturals?, List.lookup_cons, hkind.read,
          hlabels.read, hparams.read]
  | some c =>
      have hcustom : Recovers CustomMatrix.ofJson? c.toJson c := recovers_custom fun x hx =>
        h x (List.mem_append_right _ (by simpa using hx))
      -- An object is not taken for a matrix that is absent.
      have hpayload := recovers_some hcustom Json.noConfusion
      refine recovers_record (by simp) ?_ ?_
      · simp [hkind.textual, hlabels.textual, hparams.textual, hcustom.textual]
      · simp [naturals?, List.lookup_cons, hkind.read,
          hlabels.read, hparams.read, hpayload.read]

/-- Present or absent, where what is present is not written as `null`. -/
theorem recovers_option {α : Type} {value? : Json → Option α} {toJson : α → Json}
    (hne : ∀ a, toJson a ≠ .null) {o : Option α}
    (h : ∀ a ∈ o, Recovers value? (toJson a) a) :
    Recovers (optional? value?) (SimulatorConfig.optionToJson toJson o) o := by
  cases o with
  | none => exact recovers_none value?
  | some a => exact recovers_some (h a rfl) (hne a)

/-- A circuit is recovered with its gates, its measurements and its name. -/
theorem recovers_circuit {c : Circuit R} (hwords : ∀ n ∈ c.words, n < wordLimit)
    (h : ∀ x ∈ c.scalars, ReadsBack x) : Recovers Circuit.ofJson? c.toJson c := by
  have hnumQubits := recovers_natural (hwords c.numQubits (by simp [Circuit.words]))
  have hnumClbits := recovers_natural (hwords c.numClbits (by simp [Circuit.words]))
  have hgates := recovers_list fun g hg => recovers_gate
    (fun q hq => hwords q (Circuit.qubit_mem_words hg hq))
    fun x hx => h x (List.mem_flatMap.mpr ⟨g, hg, hx⟩)
  have hmeasurements : Recovers (list? (pair? natural? natural?))
      (.array (c.measurements.map Circuit.pairToJson)) c.measurements :=
    recovers_list fun p hp => recovers_pair
      (recovers_natural (hwords p.1 (Circuit.measured_mem_words hp).1))
      (recovers_natural (hwords p.2 (Circuit.measured_mem_words hp).2))
  have hname : Recovers (optional? text?) (SimulatorConfig.optionToJson text c.name) c.name :=
    recovers_option (fun _ => Json.noConfusion) fun name _ => recovers_text name
  -- The name is a field in any case, and `null` stands for none.
  have hjson : c.toJson = record
      [("num_qubits", ofNat c.numQubits), ("num_clbits", ofNat c.numClbits),
        ("gates", .array (c.gates.map Gate.toJson)),
        ("measurements", .array (c.measurements.map Circuit.pairToJson)),
        ("name", SimulatorConfig.optionToJson text c.name)] := by
    rw [Circuit.toJson]
    cases c.name <;> rfl
  rw [hjson]
  refine recovers_record (by simp) ?_ ?_
  · simp [hnumQubits.textual, hnumClbits.textual, hgates.textual, hmeasurements.textual,
      hname.textual]
  · simp [List.lookup_cons, hnumQubits.read, hnumClbits.read, hgates.read,
      hmeasurements.read, hname.read]

end Gates

section Settings

variable {R : Type} [RealText R]

theorem recovers_channel (c : NoiseChannel) : Recovers NoiseChannel.ofJson? c.toJson c :=
  recovers_name (by cases c <;> rfl)

/-- A noise model is recovered with its rate and its matrix. -/
theorem recovers_noiseModel {model : NoiseModel R} (h : ∀ x ∈ model.scalars, ReadsBack x) :
    Recovers NoiseModel.ofJson? model.toJson model := by
  have hchannel := recovers_channel model.channel
  have hrate := recovers_real (h model.rate List.mem_cons_self)
  rcases model with ⟨channel, rate, custom⟩
  -- Without a matrix the field is left out, as in a gate.
  cases custom with
  | none =>
      refine recovers_record (by simp) ?_ ?_
      · simp [hchannel.textual, hrate.textual]
      · simp [List.lookup_cons, hchannel.read, hrate.read]
  | some m =>
      have hmatrix : Recovers Matrix2.ofJson? m.toJson m := recovers_matrix2 fun x hx =>
        h x (List.mem_cons_of_mem rate (by simpa using hx))
      have hcustom := recovers_some hmatrix Json.noConfusion
      refine recovers_record (by simp) ?_ ?_
      · simp [hchannel.textual, hrate.textual, hmatrix.textual]
      · simp [List.lookup_cons, hchannel.read, hrate.read, hcustom.read]

/-- A seed is a word, and is written as the whole number that it stands for. -/
theorem recovers_seed (s : UInt64) :
    Recovers SimulatorConfig.seed? (ofNat s.toNat) s := by
  have hnat := recovers_natural (n := s.toNat) s.toNat_lt
  refine ⟨hnat.textual, ?_⟩
  rw [SimulatorConfig.seed?, hnat.read, Option.map_some, UInt64.ofNat_toNat]

/-- A configuration is recovered with the noise and the seed that it has. -/
theorem recovers_config {c : SimulatorConfig R} (hwidth : c.numQubits < wordLimit)
    (h : ∀ x ∈ c.scalars, ReadsBack x) : Recovers SimulatorConfig.ofJson? c.toJson c := by
  have hnumQubits := recovers_natural hwidth
  have hnoise : Recovers (optional? NoiseModel.ofJson?)
      (SimulatorConfig.optionToJson NoiseModel.toJson c.noise) c.noise := by
    refine recovers_option (fun model => ?_) fun model hmodel => recovers_noiseModel fun x hx => ?_
    · -- A model is written as an object, with or without a matrix.
      rw [NoiseModel.toJson]
      cases model.custom <;> exact Json.noConfusion
    · exact h x (List.mem_flatMap.mpr ⟨model, Option.mem_toList.mpr hmodel, hx⟩)
  have hseed : Recovers (optional? SimulatorConfig.seed?)
      (SimulatorConfig.optionToJson (fun s : UInt64 => ofNat s.toNat) c.seed) c.seed :=
    recovers_option (fun _ => Json.noConfusion) fun s _ => recovers_seed s
  refine recovers_record (by simp) ?_ ?_
  · simp [hnumQubits.textual, hnoise.textual, hseed.textual]
  · simp [List.lookup_cons, hnumQubits.read, hnoise.read, hseed.read]

/-- Settings are recovered when their bound on the rounds is a word. -/
theorem recovers_settings {s : RewriteSettings} (h : s.maxRounds < wordLimit) :
    Recovers RewriteSettings.ofJson? s.toJson s := by
  have hswitch := recovers_truth
  have hrounds := recovers_natural h
  refine recovers_record (by simp) ?_ ?_
  · simp [(hswitch _).textual, hrounds.textual]
  · simp [List.lookup_cons, (hswitch _).read, hrounds.read]

end Settings

end Json

end QubitLab
