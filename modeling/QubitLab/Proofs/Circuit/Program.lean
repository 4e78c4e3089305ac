import QubitLab.Circuit.Qasm
import QubitLab.Double.Scalar
import QubitLab.Proofs.Circuit.Renamed
import QubitLab.Proofs.Gate.Statement
import QubitLab.Proofs.Invariant

/-!
# Programs that determine their circuits

A program is a list of lines: five of them for the registers, then one for each gate, and one
for each measurement. There is no mark between the last two sections, and none is needed, since
no gate of a built-in kind is called `measure`.

So the circuit can be read off the text. The text determines its lines, because no line feed
occurs in one; the lines determine the three sections; and each line determines what it was
written for. A custom gate can break all three of these, as its name may be any text that is
not blank. The statement is therefore about circuits that have been built from gates of the
built-in kinds, each of which has been through its constructor.

The name of a circuit is not in its program.

## Main definitions

* `Circuit.Built`: Circuits built from gates of the built-in kinds and measurements.
* `Circuit.AllStandard`: All gates are what their constructor makes.
* `Circuit.lines`: The lines of a program.
* `Circuit.IsLines`: A text has these lines and no others.

## Theorems

* `Built.standard`: What the gates of such a circuit are like.
* `measurementText_inj`, `qasm_ne_measurementText`: Statements of measurements.
* `isLines_qasm`, `lines_inj`: The lines, and what they determine.
* `qasm_determines_circuit`: Both in one.
-/

namespace QubitLab

theorem GateKind.name_ne_measure (k : GateKind) : k.name ≠ "measure" := by
  cases k <;> decide

namespace Circuit

variable {R : Type}

section Measurements

/-- The statement of a measurement tells its qubit and its bit. -/
theorem measurementText_inj {p p' : Nat × Nat} (h : measurementText p = measurementText p') :
    p = p' := by
  have hdigits : ∀ n : Nat, ∀ c ∈ (toString n).toList, c.isDigit = true := fun n c hc =>
    Text.isDigit_of_mem_toString hc
  have hend : ∀ s : String, ∀ c ∈ ("] -> c[" ++ s).toList.head?, ¬ c.isDigit = true := by
    intro s c hc
    rw [String.toList_append] at hc
    obtain rfl : ']' = c := Option.some.inj hc
    decide
  simp only [measurementText, String.append_assoc, String.append_right_inj] at h
  -- The qubit ends at the bracket, and the classical bit stands between what is fixed.
  rcases Text.append_inj (hdigits p.1) (hdigits p'.1) (hend _) (hend _) h with ⟨hqubit, hrest⟩
  simp only [String.append_right_inj, String.append_left_inj] at hrest
  exact Prod.ext (Text.toString_inj hqubit) (Text.toString_inj hrest)

/-- The statement of a measurement is on one line. -/
theorem notMem_measurementText (p : Nat × Nat) : '\n' ∉ (measurementText p).toList := by
  have hnumber := Text.notMem_toString (c := '\n') rfl
  simp only [measurementText, String.toList_append, List.mem_append, hnumber, or_false]
  decide

variable [RealText R] [Scalar R]

/-- No built-in kind has the mnemonic of a measurement. -/
theorem qasm_ne_measurementText {g : Gate R} (hg : g.Standard) (p : Nat × Nat) :
    g.qasm ≠ measurementText p := by
  intro h
  simp only [measurementText, String.append_assoc] at h
  have hsplit : "measure q[" = "measure" ++ " q[" := rfl
  rw [hsplit, String.append_assoc] at h
  have hblank : ∀ s : String, ∀ c ∈ (" q[" ++ s).toList.head?, ¬ c.isAlphanum = true := by
    intro s c hc
    rw [String.toList_append] at hc
    obtain rfl : ' ' = c := Option.some.inj hc
    decide
  have hword : ∀ c ∈ "measure".toList, c.isAlphanum = true := List.all_eq_true.mp (by decide)
  exact absurd (hg.first_word hword (hblank _) h).1 g.kind.name_ne_measure

end Measurements

section Building

variable [Scalar R]

/-- A circuit that has been built from gates of the built-in kinds and from measurements. A call
    may have been refused. -/
inductive Built : Circuit R → Prop where
  /-- Without gates, over two registers. -/
  | empty (numQubits numClbits : Nat) : Built (empty numQubits numClbits)
  /-- With another name. -/
  | withName {c : Circuit R} (hc : Built c) (name : String) : Built (c.withName name)
  /-- After a gate has been added. -/
  | addGate {c : Circuit R} (hc : Built c) (kind : GateKind) (qubits : List Nat)
      (params : List R) : Built (addGate kind qubits params c).state
  /-- After a measurement has been added. -/
  | measure {c : Circuit R} (hc : Built c) (qubit clbit : Nat) :
      Built (measure qubit clbit c).state

open Transition

/-- All gates are what their constructor makes. -/
def AllStandard (c : Circuit R) : Prop := ∀ g ∈ c.gates, g.Standard

/-- A gate that is added has been through its constructor. -/
theorem keeps_standard_addGate (kind : GateKind) (qubits : List Nat) (params : List R) :
    Keeps (fun _ => True) AllStandard (Circuit.addGate kind qubits params) := by
  refine keeps_attempt fun c d hc h g hg => ?_
  rcases (answers_addGate kind qubits params c d).mp h with ⟨-, added, hadded, rfl⟩
  rcases List.mem_append.mp hg with hg | hg
  · exact hc g hg
  · exact List.mem_singleton.mp hg ▸ Gate.standard_of_builtin hadded

theorem keeps_standard_measure (qubit clbit : Nat) :
    Keeps (fun _ => True) AllStandard (Circuit.measure qubit clbit : Edit R Unit) := by
  refine keeps_attempt fun c d hc h => ?_
  rcases (answers_measure qubit clbit c d).mp h with ⟨-, rfl⟩
  exact hc

/-- The gates of a circuit that has been built are those that their constructors make. -/
theorem Built.standard {c : Circuit R} (hc : Built c) : c.AllStandard := by
  induction hc with
  | empty numQubits numClbits => exact fun g hg => absurd hg List.not_mem_nil
  | withName hc name ih => exact ih
  | @addGate c hc kind qubits params ih =>
      exact keeps_standard_addGate kind qubits params c ih fun _ _ => trivial
  | @measure c hc qubit clbit ih =>
      exact keeps_standard_measure qubit clbit c ih fun _ _ => trivial

end Building

section Lines

variable [RealText R]

/-- The lines of the program of a circuit. -/
def lines (c : Circuit R) : List String :=
  c.header ++ (c.gates.map Gate.qasm ++ c.measurements.map measurementText)

/-- The text has these lines, each with a line feed at its end and nowhere else. -/
structure IsLines (lines : List String) (text : String) : Prop where
  /-- No line feed occurs in a line. -/
  single : ∀ l ∈ lines, '\n' ∉ l.toList
  /-- The lines make up the text. -/
  text : text = String.join (lines.map line)

/-- Five lines for the registers, one for each gate and one for each measurement. -/
theorem length_lines (c : Circuit R) : c.lines.length = 5 + c.size + c.measurements.length := by
  rw [lines, List.length_append, List.length_append, List.length_map, List.length_map,
    ← Nat.add_assoc]
  rfl

omit [RealText R] in
theorem notMem_header (c : Circuit R) : ∀ l ∈ c.header, '\n' ∉ l.toList := by
  have hnumber := Text.notMem_toString (c := '\n') rfl
  simp only [header, List.forall_mem_cons, String.toList_append, List.mem_append, hnumber,
    or_false, List.not_mem_nil, false_implies, implies_true, and_true]
  decide

omit [RealText R] in
/-- The lines in front tell the widths of both registers. -/
theorem header_inj {c d : Circuit R} (h : c.header = d.header) :
    c.numQubits = d.numQubits ∧ c.numClbits = d.numClbits := by
  simp only [header, List.cons.injEq, String.append_left_inj, String.append_right_inj,
    true_and, and_true] at h
  exact ⟨Text.toString_inj h.1, Text.toString_inj h.2⟩

variable [Scalar R] {c d : Circuit R} {xs : List R}

omit [RealText R] [Scalar R] in
theorem param_mem_scalars {g : Gate R} (hg : g ∈ c.gates) : ∀ x ∈ g.params, x ∈ c.scalars :=
  fun _ hx => List.mem_flatMap.mpr ⟨g, hg, List.mem_append_left _ hx⟩

/-- The program is its lines, and no line feed is inside of one. -/
theorem isLines_qasm (hc : c.AllStandard) (hxs : Gate.Legible xs)
    (hscalars : ∀ x ∈ c.scalars, x ∈ xs) : IsLines c.lines c.qasm := by
  refine ⟨fun l hl => ?_, by rw [qasm, lines, List.append_assoc]⟩
  rcases List.mem_append.mp hl with hl | hl
  · exact notMem_header c l hl
  · rcases List.mem_append.mp hl with hl | hl
    · rcases List.mem_map.mp hl with ⟨g, hg, rfl⟩
      exact Gate.notMem_qasm hxs (hc g hg) fun x hx => hscalars x (param_mem_scalars hg x hx)
    · rcases List.mem_map.mp hl with ⟨p, -, rfl⟩
      exact notMem_measurementText p

/-- The lines tell the registers, the gates and the measurements. -/
theorem lines_inj (hc : c.AllStandard) (hd : d.AllStandard) (hxs : Gate.Legible xs)
    (hcxs : ∀ x ∈ c.scalars, x ∈ xs) (hdxs : ∀ x ∈ d.scalars, x ∈ xs) (h : c.lines = d.lines) :
    c.numQubits = d.numQubits ∧ c.numClbits = d.numClbits ∧ c.gates = d.gates ∧
      c.measurements = d.measurements := by
  have hgate : ∀ e : Circuit R, e.AllStandard → ∀ s ∈ e.gates.map Gate.qasm,
      ∀ p, s ≠ measurementText p := by
    intro e he s hs
    rcases List.mem_map.mp hs with ⟨g, hg, rfl⟩
    exact qasm_ne_measurementText (he g hg)
  have hmeasurement : ∀ e : Circuit R, ∀ s ∈ (e.measurements.map measurementText).head?,
      ¬ ∀ p, s ≠ measurementText p := by
    intro e s hs hne
    rcases List.mem_map.mp (List.mem_of_mem_head? hs) with ⟨p, -, rfl⟩
    exact hne p rfl
  -- The header has five lines, and the gates end where the first measurement is.
  rcases List.append_inj h rfl with ⟨hheader, hbody⟩
  rcases Text.front_inj (hgate c hc) (hgate d hd) (hmeasurement c) (hmeasurement d) hbody with
    ⟨hgates, hmeasurements⟩
  refine ⟨(header_inj hheader).1, (header_inj hheader).2, ?_, ?_⟩
  · exact Text.eq_of_map_eq (P := fun g => g.Standard ∧ ∀ x ∈ g.params, x ∈ xs)
      (fun g g' hg hg' => Gate.qasm_inj hxs hg.1 hg'.1 hg.2 hg'.2)
      (fun g hg => ⟨hc g hg, fun x hx => hcxs x (param_mem_scalars hg x hx)⟩)
      (fun g hg => ⟨hd g hg, fun x hx => hdxs x (param_mem_scalars hg x hx)⟩) hgates
  · exact (List.map_inj_right fun p p' => measurementText_inj).mp hmeasurements

/-- Circuits that have been built from gates of the built-in kinds and from measurements, and
    whose angles can be told apart by their texts, have the same program only if they have the
    same registers, gates and measurements. And the program of such a circuit has five lines, one
    for each gate and one for each measurement. -/
theorem qasm_determines_circuit (hc : Built c) (hd : Built d)
    (hlegible : Gate.Legible (c.scalars ++ d.scalars)) :
    (c.qasm = d.qasm → c.numQubits = d.numQubits ∧ c.numClbits = d.numClbits ∧
      c.gates = d.gates ∧ c.measurements = d.measurements) ∧
    IsLines c.lines c.qasm ∧ c.lines.length = 5 + c.size + c.measurements.length ∧
    c.qasm.toList.count '\n' = 5 + c.size + c.measurements.length := by
  have hcxs : ∀ x ∈ c.scalars, x ∈ c.scalars ++ d.scalars := fun _ => List.mem_append_left _
  have hdxs : ∀ x ∈ d.scalars, x ∈ c.scalars ++ d.scalars := fun _ => List.mem_append_right _
  have hlines := isLines_qasm hc.standard hlegible hcxs
  have hlines' := isLines_qasm hd.standard hlegible hdxs
  refine ⟨fun h => ?_, hlines, length_lines c, ?_⟩
  · rw [hlines.text, hlines'.text] at h
    exact lines_inj hc.standard hd.standard hlegible hcxs hdxs
      (Text.endedLines_inj hlines.single hlines'.single h)
  · rw [hlines.text, ← length_lines]
    exact Text.count_endedLines hlines.single

/-- A rotation, a controlled negation and a measurement. -/
def measuredPair : Circuit Float :=
  (measure 1 0 (addGate .cx [0, 1] [] (addGate .rz [1] [0.5] (empty 2 1)).state).state).state

/-- The same under a name, after a gate that was refused. -/
def namedPair : Circuit Float :=
  (measure 1 0 (addGate .cx [0, 1] [] (addGate .cx [1, 1] []
    (addGate .rz [1] [0.5] ((empty 2 1).withName "pair")).state).state).state).state

theorem measuredPair_determined :
    measuredPair.qasm = namedPair.qasm ∧ measuredPair.gates = namedPair.gates ∧
      measuredPair.measurements = namedPair.measurements ∧
      IsLines measuredPair.lines measuredPair.qasm ∧ measuredPair.qasm.toList.count '\n' = 8 := by
  have hbuilt : Built measuredPair :=
    .measure (.addGate (.addGate (.empty 2 1) .rz [1] [0.5]) .cx [0, 1] []) 1 0
  have hnamed : Built namedPair :=
    .measure (.addGate (.addGate (.addGate (.withName (.empty 2 1) "pair") .rz [1] [0.5])
      .cx [1, 1] []) .cx [0, 1] []) 1 0
  have hsame : measuredPair.qasm = namedPair.qasm := by decide +kernel
  have hnumber : 5 + measuredPair.size + measuredPair.measurements.length = 8 := by
    decide +kernel
  obtain ⟨hfields, hlines, -, hcount⟩ :=
    qasm_determines_circuit hbuilt hnamed (by decide +kernel)
  obtain ⟨-, -, hgates, hmeasurements⟩ := hfields hsame
  exact ⟨hsame, hgates, hmeasurements, hlines, hcount.trans hnumber⟩

end Lines

end Circuit

end QubitLab
