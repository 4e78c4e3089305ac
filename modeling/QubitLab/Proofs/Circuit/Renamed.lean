import Mathlib.Data.List.Nodup
import Mathlib.Data.List.Perm.Subperm
import QubitLab.Circuit.Relabel
import QubitLab.Proofs.Gate.Fits
import QubitLab.Proofs.Transition

/-!
# Well-formed circuits under renaming

A circuit that passes its check consists of gates that fit into its register and
of measurements whose two ends lie inside the two registers. `WellFormed` says
this without the check, and is the form in which every theorem about rewriting or
running a circuit uses it.

Relabelling by a permutation cannot fail on such a circuit. The check of the
mapping passes because the mapping is a permutation, no gate gets a qubit twice
because the mapping is injective, and no qubit is missing because all of them are
inside the register. What remains of the edit is a plain function on circuits,
`mapQubits`, and `answers_relabel` replaces the one by the other.

It asks for less than that. `Placed` keeps what is said of qubits and leaves the rest
out, and `answers_relabel_iff` says that this is all that relabelling needs.

## Main definitions

* `Circuit.WellFormed`: Every gate and every measurement is inside the registers.
* `Circuit.Placed`: The qubits are inside the register, and no gate has one twice.
* `Circuit.label`: The new label of a qubit under a mapping.
* `Circuit.origin`: The qubit that got a label.
* `Circuit.mapQubits`: The circuit with its qubits renamed by a function.

## Theorems

* `validate_eq_ok`: A circuit passes its check exactly when it is well-formed.
* `answers_addGate`, …, `answers_setGates`: When an edit is accepted, and what it does.
* `checkMapping_eq_ok`: A mapping passes its check exactly when it is a
  permutation of the register.
* `renaming_label`, `renaming_origin`: A permutation of the register is a renaming,
  forwards and backwards.
* `origin_label`, `label_origin`: The two are inverse to each other.
* `perm_range_map`: A permutation followed by a renaming is a permutation.
* `mapQubits_mapQubits`, `Placed.mapQubits_congr`, `Placed.mapQubits_eq_self`: Renamings of
  a circuit one after the other, and renamings that do the same or nothing.
* `answers_relabel_iff`: When relabelling succeeds, and with what.
* `answers_relabel`: Relabelling a well-formed circuit by a permutation.
* `wellFormed_mapQubits`: Renaming keeps a circuit well-formed.
-/

namespace QubitLab

namespace Circuit

variable {R : Type}

section Checks

variable [Scalar R]

/-- Every gate fits into the quantum register, and every measurement is from one of
    its qubits into one of the classical bits. -/
def WellFormed (c : Circuit R) : Prop :=
  (∀ g ∈ c.gates, g.Fits c.numQubits) ∧
    ∀ m ∈ c.measurements, m.1 < c.numQubits ∧ m.2 < c.numClbits

omit [Scalar R] in
/-- Every gate is on distinct qubits of the register, and every measurement is of one of
    them. Nothing is asked of the kinds, angles and matrices, or of the classical bits. -/
def Placed (c : Circuit R) : Prop :=
  (∀ g ∈ c.gates, (∀ q ∈ g.qubits, q < c.numQubits) ∧ g.qubits.Nodup) ∧
    ∀ m ∈ c.measurements, m.1 < c.numQubits

/-- What is well-formed is placed, and more is said of it. -/
theorem WellFormed.placed {c : Circuit R} (hc : c.WellFormed) : c.Placed :=
  ⟨fun g hg => ⟨(hc.1 g hg).1, (hc.1 g hg).nodup⟩, fun m hm => (hc.2 m hm).1⟩

/-- The check of a gate is passed by the gates that fit. -/
theorem checkGate_eq_ok (c : Circuit R) (g : Gate R) :
    c.checkGate g = .ok () ↔ g.Fits c.numQubits := by
  rw [checkGate, Checks.check_bind_eq_ok, Gate.checkRange_eq_ok, Gate.Fits]

omit [Scalar R] in
theorem checkMeasurement_eq_ok (c : Circuit R) (m : Nat × Nat) :
    c.checkMeasurement m = .ok () ↔ m.1 < c.numQubits ∧ m.2 < c.numClbits := by
  rw [checkMeasurement, Checks.check_bind_eq_ok, Gate.checkRange_eq_ok]
  simp only [List.mem_singleton, forall_eq]
  by_cases hm : c.numClbits ≤ m.2
  · rw [if_pos hm]
    simp only [reduceCtorEq, and_false, false_iff, not_and]
    omega
  · rw [if_neg hm]
    simp only [Checks.pure_eq_ok, and_true]
    omega

/-- A circuit passes its check exactly when it is well-formed. -/
theorem validate_eq_ok (c : Circuit R) : c.validate = .ok () ↔ c.WellFormed := by
  unfold validate
  simp only [Checks.check_bind_eq_ok, Checks.forM_eq_ok, checkGate_eq_ok,
    checkMeasurement_eq_ok, WellFormed]

/-- A gate of a built-in kind is accepted when its qubits are inside and its constructor makes
    it. -/
theorem answers_addGate (kind : GateKind) (qubits : List Nat) (params : List R)
    (c d : Circuit R) :
    Transition.Answers (addGate kind qubits params) c () d ↔
      (∀ q ∈ qubits, q < c.numQubits) ∧ ∃ g, Gate.builtin kind qubits params = .ok g ∧
        d = { c with gates := c.gates ++ [g] } := by
  rw [addGate, Transition.answers_attempt, Checks.check_bind_eq_ok, Gate.checkRange_eq_ok,
    Checks.bind_eq_ok]
  simp only [Checks.pure_eq_ok, @eq_comm _ d]

/-- A gate that is already there is checked as if it were made again. -/
theorem answers_pushGate (g : Gate R) (c d : Circuit R) :
    Transition.Answers (pushGate g) c () d ↔
      g.Fits c.numQubits ∧ d = { c with gates := c.gates ++ [g] } := by
  simp only [pushGate, Transition.answers_attempt, Checks.check_bind_eq_ok, checkGate_eq_ok,
    Checks.pure_eq_ok, @eq_comm _ d]

/-- A custom gate is accepted in the same way, with its own constructor. -/
theorem answers_addCustom (name : String) (matrix : Rows (Complex R)) (qubits : List Nat)
    (c d : Circuit R) :
    Transition.Answers (addCustom name matrix qubits) c () d ↔
      (∀ q ∈ qubits, q < c.numQubits) ∧ ∃ g, Gate.custom name matrix qubits = .ok g ∧
        d = { c with gates := c.gates ++ [g] } := by
  rw [addCustom, Transition.answers_attempt, Checks.check_bind_eq_ok, Gate.checkRange_eq_ok,
    Checks.bind_eq_ok]
  simp only [Checks.pure_eq_ok, @eq_comm _ d]

omit [Scalar R] in
/-- A measurement is accepted when both of its ends are there. -/
theorem answers_measure (qubit clbit : Nat) (c d : Circuit R) :
    Transition.Answers (measure qubit clbit) c () d ↔
      (qubit < c.numQubits ∧ clbit < c.numClbits) ∧
        d = { c with measurements := c.measurements ++ [(qubit, clbit)] } := by
  simp only [measure, Transition.answers_attempt, Checks.check_bind_eq_ok,
    checkMeasurement_eq_ok, Checks.pure_eq_ok, @eq_comm _ d]

/-- Gates are replaced all at once or not at all. -/
theorem answers_setGates (gates : List (Gate R)) (c d : Circuit R) :
    Transition.Answers (setGates gates) c () d ↔
      (∀ g ∈ gates, g.Fits c.numQubits) ∧ d = { c with gates } := by
  simp only [setGates, Transition.answers_attempt, Checks.check_bind_eq_ok,
    Checks.forM_eq_ok, checkGate_eq_ok, Checks.pure_eq_ok, @eq_comm _ d]

end Checks

section Mapping

/-- The targets that come are in range, new, and none of them comes twice. -/
theorem checkTargets_eq_ok (n : Nat) (seen mapping : List Nat) :
    (checkTargets n seen mapping : Except (Error R) Unit) = .ok () ↔
      (∀ t ∈ mapping, t < n ∧ t ∉ seen) ∧ mapping.Nodup := by
  induction mapping generalizing seen with
  | nil => simp [checkTargets]
  | cons t rest ih =>
      -- Either the first target is refused, or it joins those that have been seen.
      by_cases hn : n ≤ t
      · rw [checkTargets, if_pos hn]
        refine iff_of_false (by simp only [reduceCtorEq, not_false_eq_true]) fun h => ?_
        have := (h.1 t List.mem_cons_self).1
        omega
      · by_cases hs : t ∈ seen
        · rw [checkTargets, if_neg hn, if_pos hs]
          refine iff_of_false (by simp only [reduceCtorEq, not_false_eq_true]) fun h => ?_
          exact (h.1 t List.mem_cons_self).2 hs
        · rw [checkTargets, if_neg hn, if_neg hs, ih, List.nodup_cons]
          constructor
          · rintro ⟨hr, hd⟩
            refine ⟨fun p hp => ?_, fun hmem => (hr t hmem).2 List.mem_cons_self, hd⟩
            rcases List.mem_cons.mp hp with rfl | hp
            · exact ⟨by omega, hs⟩
            · exact ⟨(hr p hp).1, fun h => (hr p hp).2 (List.mem_cons_of_mem t h)⟩
          · rintro ⟨hr, hmem, hd⟩
            refine ⟨fun p hp => ⟨(hr p (List.mem_cons_of_mem t hp)).1, fun h => ?_⟩, hd⟩
            rcases List.mem_cons.mp h with rfl | h
            · exact hmem hp
            · exact (hr p (List.mem_cons_of_mem t hp)).2 h

/-- Distinct numbers below `n`, `n` of them, are all of them. -/
theorem perm_range_of_nodup {n : Nat} {l : List Nat} (hlen : l.length = n)
    (hlt : ∀ t ∈ l, t < n) (hd : l.Nodup) : l.Perm (List.range n) := by
  have hsub : l.Subperm (List.range n) :=
    List.subperm_of_subset hd fun t ht => List.mem_range.mpr (hlt t ht)
  exact hsub.perm_of_length_le (by rw [List.length_range]; omega)

/-- A mapping passes its check exactly when it is a permutation of the register. -/
theorem checkMapping_eq_ok (n : Nat) (mapping : List Nat) :
    (checkMapping n mapping : Except (Error R) Unit) = .ok () ↔
      mapping.Perm (List.range n) := by
  constructor
  · intro h
    unfold checkMapping at h
    by_cases hlen : mapping.length = n
    · rw [if_neg (by omega), checkTargets_eq_ok] at h
      exact perm_range_of_nodup hlen (fun t ht => (h.1 t ht).1) h.2
    · rw [if_pos hlen] at h
      exact absurd h (by simp only [reduceCtorEq, not_false_eq_true])
  · intro h
    have hlen : mapping.length = n := by rw [h.length_eq, List.length_range]
    rw [checkMapping, if_neg (by omega), checkTargets_eq_ok]
    refine ⟨fun t ht => ⟨List.mem_range.mp (h.mem_iff.mp ht), List.not_mem_nil⟩, ?_⟩
    exact h.nodup_iff.mpr List.nodup_range

/-- The new label of a qubit under a mapping. -/
def label (mapping : List Nat) (q : Nat) : Nat := mapping.getD q 0

theorem label_eq_getElem {mapping : List Nat} {q : Nat} (h : q < mapping.length) :
    label mapping q = mapping[q] := by
  rw [label, List.getD_eq_getElem?_getD, List.getElem?_eq_getElem h, Option.getD_some]

theorem getElem?_eq_label {mapping : List Nat} {q : Nat} (h : q < mapping.length) :
    mapping[q]? = some (label mapping q) := by
  rw [label_eq_getElem h, List.getElem?_eq_getElem h]

/-- A permutation of the register gives different qubits different labels. -/
theorem renaming_label {n : Nat} {mapping : List Nat}
    (h : mapping.Perm (List.range n)) : Gate.Renaming n (label mapping) := by
  have hlen : mapping.length = n := by rw [h.length_eq, List.length_range]
  have hd : mapping.Nodup := h.nodup_iff.mpr List.nodup_range
  constructor
  · intro q hq
    have hmem := List.mem_of_getElem? (@getElem?_eq_label mapping q (hlen ▸ hq))
    exact List.mem_range.mp (h.mem_iff.mp hmem)
  · intro p q hp hq hpq
    refine (List.getElem?_inj (hlen ▸ hp) hd).mp ?_
    rw [getElem?_eq_label (hlen ▸ hp), getElem?_eq_label (hlen ▸ hq), hpq]

/-- The qubit that a mapping gives a label to. -/
def origin (mapping : List Nat) (p : Nat) : Nat := mapping.idxOf p

/-- Every qubit is where its label came from. -/
theorem origin_label {n : Nat} {mapping : List Nat} (h : mapping.Perm (List.range n))
    {q : Nat} (hq : q < n) : origin mapping (label mapping q) = q := by
  have hlen : q < mapping.length := by rw [h.length_eq, List.length_range]; exact hq
  rw [origin, label_eq_getElem hlen, (h.nodup_iff.mpr List.nodup_range).idxOf_getElem q hlen]

/-- Every label is that of the qubit it came from. -/
theorem label_origin {n : Nat} {mapping : List Nat} (h : mapping.Perm (List.range n))
    {p : Nat} (hp : p < n) : label mapping (origin mapping p) = p := by
  have hmem : p ∈ mapping := h.mem_iff.mpr (List.mem_range.mpr hp)
  have hlt : mapping.idxOf p < mapping.length := List.idxOf_lt_length_of_mem hmem
  rw [origin, label_eq_getElem hlt, List.getElem_idxOf]

/-- The way back is a renaming as well. -/
theorem renaming_origin {n : Nat} {mapping : List Nat} (h : mapping.Perm (List.range n)) :
    Gate.Renaming n (origin mapping) := by
  constructor
  · intro p hp
    have hmem : p ∈ mapping := h.mem_iff.mpr (List.mem_range.mpr hp)
    have hlt : mapping.idxOf p < mapping.length := List.idxOf_lt_length_of_mem hmem
    rw [h.length_eq, List.length_range] at hlt
    exact hlt
  · intro p q hp hq hpq
    rw [← label_origin h hp, hpq, label_origin h hq]

theorem label_range {n q : Nat} (hq : q < n) : label (List.range n) q = q := by
  rw [label_eq_getElem (by rw [List.length_range]; exact hq), List.getElem_range]

/-- Two mappings one after the other, as one mapping. -/
theorem label_map {first : List Nat} (f : Nat → Nat) {q : Nat} (hq : q < first.length) :
    label (first.map f) q = f (label first q) := by
  rw [label_eq_getElem (by rw [List.length_map]; exact hq), List.getElem_map,
    label_eq_getElem hq]

/-- A permutation followed by a renaming is a permutation. -/
theorem perm_range_map {n : Nat} {first : List Nat} {f : Nat → Nat}
    (h : first.Perm (List.range n)) (hf : Gate.Renaming n f) :
    (first.map f).Perm (List.range n) := by
  have hlt : ∀ q ∈ first, q < n := fun q hq => List.mem_range.mp (h.mem_iff.mp hq)
  refine perm_range_of_nodup ?_ ?_ ?_
  · rw [List.length_map, h.length_eq, List.length_range]
  · intro t ht
    rcases List.mem_map.mp ht with ⟨q, hq, rfl⟩
    exact hf.lt q (hlt q hq)
  · exact Gate.nodup_map_of_renaming hf hlt (h.nodup_iff.mpr List.nodup_range)

end Mapping

section Renaming

/-- The circuit with the qubits of its gates and measurements renamed. -/
def mapQubits (f : Nat → Nat) (c : Circuit R) : Circuit R :=
  { c with
    gates := c.gates.map (Gate.mapQubits f)
    measurements := c.measurements.map fun m => (f m.1, m.2) }

@[simp] theorem mapQubits_numQubits (f : Nat → Nat) (c : Circuit R) :
    (c.mapQubits f).numQubits = c.numQubits := rfl

@[simp] theorem mapQubits_numClbits (f : Nat → Nat) (c : Circuit R) :
    (c.mapQubits f).numClbits = c.numClbits := rfl

@[simp] theorem mapQubits_gates (f : Nat → Nat) (c : Circuit R) :
    (c.mapQubits f).gates = c.gates.map (Gate.mapQubits f) := rfl

@[simp] theorem mapQubits_measurements (f : Nat → Nat) (c : Circuit R) :
    (c.mapQubits f).measurements = c.measurements.map fun m => (f m.1, m.2) := rfl

theorem mapQubits_mapQubits (f f' : Nat → Nat) (c : Circuit R) :
    (c.mapQubits f).mapQubits f' = c.mapQubits fun q => f' (f q) := by
  simp only [mapQubits, List.map_map, Function.comp_def, Gate.mapQubits_mapQubits]

/-- Only the names of qubits of the register count. -/
theorem Placed.mapQubits_congr {c : Circuit R} (hc : c.Placed) {f f' : Nat → Nat}
    (h : ∀ q, q < c.numQubits → f q = f' q) : c.mapQubits f = c.mapQubits f' := by
  have hgates : c.gates.map (Gate.mapQubits f) = c.gates.map (Gate.mapQubits f') :=
    List.map_congr_left fun g hg => Gate.mapQubits_congr fun q hq => h q ((hc.1 g hg).1 q hq)
  have hmeasurements : (c.measurements.map fun m => (f m.1, m.2))
      = c.measurements.map fun m => (f' m.1, m.2) :=
    List.map_congr_left fun m hm => by rw [h m.1 (hc.2 m hm)]
  rw [mapQubits, hgates, hmeasurements, mapQubits]

/-- Nothing changes when every qubit keeps its name. -/
theorem Placed.mapQubits_eq_self {c : Circuit R} (hc : c.Placed) {f : Nat → Nat}
    (h : ∀ q, q < c.numQubits → f q = q) : c.mapQubits f = c := by
  have hgates : c.gates.map (Gate.mapQubits fun q => q) = c.gates :=
    (List.map_congr_left fun _ _ => Gate.mapQubits_eq_self fun _ _ => rfl).trans
      (List.map_id c.gates)
  rw [hc.mapQubits_congr h, mapQubits, hgates, List.map_id']

/-- A renaming keeps a circuit placed. -/
theorem Placed.mapQubits {c : Circuit R} (hc : c.Placed) {f : Nat → Nat}
    (hf : Gate.Renaming c.numQubits f) : (c.mapQubits f).Placed := by
  constructor
  · intro g hg
    rcases List.mem_map.mp hg with ⟨g', hg', rfl⟩
    exact ⟨Gate.range_mapQubits hf (hc.1 g' hg').1,
      Gate.nodup_map_of_renaming hf (hc.1 g' hg').1 (hc.1 g' hg').2⟩
  · intro m hm
    rcases List.mem_map.mp hm with ⟨m', hm', rfl⟩
    exact hf.lt m'.1 (hc.2 m' hm')

variable [Scalar R]

/-- A renaming keeps a circuit well-formed, since no check looks at which qubits they are. -/
theorem wellFormed_mapQubits {f : Nat → Nat} {c : Circuit R}
    (hf : Gate.Renaming c.numQubits f) (hc : c.WellFormed) : (c.mapQubits f).WellFormed := by
  constructor
  · intro g hg
    rcases List.mem_map.mp hg with ⟨g', hg', rfl⟩
    exact Gate.fits_mapQubits hf (hc.1 g' hg')
  · intro m hm
    rcases List.mem_map.mp hm with ⟨m', hm', rfl⟩
    exact ⟨hf.lt m'.1 (hc.2 m' hm').1, (hc.2 m' hm').2⟩

omit [Scalar R] in
theorem newLabel_eq_ok (mapping : List Nat) (n q p : Nat) :
    (Gate.newLabel mapping n q : Except (Error R) Nat) = .ok p ↔
      q < mapping.length ∧ p = label mapping q := by
  unfold Gate.newLabel
  by_cases hq : q < mapping.length
  · rw [getElem?_eq_label hq]
    simp only [Except.ok.injEq, hq, true_and, eq_comm]
  · rw [List.getElem?_eq_none_iff.mpr (Nat.le_of_not_lt hq)]
    simp only [reduceCtorEq, hq, false_and]

omit [Scalar R] in
theorem relabel_gate_eq_ok (mapping : List Nat) (g g' : Gate R) :
    g.relabel mapping = .ok g' ↔
      ((∀ q ∈ g.qubits, q < mapping.length) ∧ (g.qubits.map (label mapping)).Nodup) ∧
        g' = g.mapQubits (label mapping) := by
  rw [Gate.relabel, Checks.bind_eq_ok]
  simp only [Checks.mapM_eq_ok (newLabel_eq_ok mapping mapping.length),
    Checks.check_bind_eq_ok, Gate.checkDistinct_eq_ok, Checks.pure_eq_ok]
  constructor
  · rintro ⟨_, ⟨hr, rfl⟩, hd, rfl⟩
    exact ⟨⟨hr, hd⟩, rfl⟩
  · rintro ⟨⟨hr, hd⟩, rfl⟩
    exact ⟨_, ⟨hr, rfl⟩, hd, rfl⟩

omit [Scalar R] in
theorem relabelMeasurement_eq_ok (n : Nat) (mapping : List Nat) (m m' : Nat × Nat) :
    (relabelMeasurement n mapping m : Except (Error R) (Nat × Nat)) = .ok m' ↔
      m.1 < mapping.length ∧ m' = (label mapping m.1, m.2) := by
  simp only [relabelMeasurement, Checks.bind_eq_ok, newLabel_eq_ok, Checks.pure_eq_ok]
  constructor
  · rintro ⟨_, ⟨hm, rfl⟩, rfl⟩
    exact ⟨hm, rfl⟩
  · rintro ⟨hm, rfl⟩
    exact ⟨_, ⟨hm, rfl⟩, rfl⟩

omit [Scalar R] in
/-- Relabelling succeeds for permutations of the register, on circuits that use its qubits
    as they should, and does nothing but rename them. -/
theorem answers_relabel_iff (mapping : List Nat) (c d : Circuit R) :
    Transition.Answers (relabel mapping) c () d ↔
      (mapping.Perm (List.range c.numQubits) ∧ c.Placed) ∧
        d = c.mapQubits (label mapping) := by
  rw [relabel, Transition.answers_attempt, Checks.check_bind_eq_ok, checkMapping_eq_ok]
  simp only [Checks.bind_eq_ok, Checks.mapM_eq_ok (relabel_gate_eq_ok mapping),
    Checks.mapM_eq_ok (relabelMeasurement_eq_ok c.numQubits mapping), Checks.pure_eq_ok]
  -- For a permutation, no label is missing and none comes twice in a gate just when this holds of
  -- the qubits.
  have hplaced : mapping.Perm (List.range c.numQubits) →
      ((∀ g ∈ c.gates, (∀ q ∈ g.qubits, q < mapping.length) ∧
          (g.qubits.map (label mapping)).Nodup) ∧
        (∀ m ∈ c.measurements, m.1 < mapping.length) ↔ c.Placed) := by
    intro h
    rw [h.length_eq, List.length_range, Placed]
    refine and_congr_left' (forall₂_congr fun g _ => and_congr_right fun hr => ?_)
    exact ⟨List.Nodup.of_map _, Gate.nodup_map_of_renaming (renaming_label h) hr⟩
  constructor
  · rintro ⟨h, _, ⟨hgates, rfl⟩, _, ⟨hmeasurements, rfl⟩, rfl⟩
    exact ⟨⟨h, (hplaced h).mp ⟨hgates, hmeasurements⟩⟩, rfl⟩
  · rintro ⟨⟨h, hc⟩, rfl⟩
    rcases (hplaced h).mpr hc with ⟨hgates, hmeasurements⟩
    exact ⟨h, _, ⟨hgates, rfl⟩, _, ⟨hmeasurements, rfl⟩, rfl⟩

/-- So it succeeds on every well-formed circuit. -/
theorem answers_relabel {c : Circuit R} (hc : c.WellFormed) {mapping : List Nat}
    (h : mapping.Perm (List.range c.numQubits)) :
    Transition.Answers (relabel mapping) c () (c.mapQubits (label mapping)) :=
  (answers_relabel_iff mapping c _).mpr ⟨⟨h, hc.placed⟩, rfl⟩

end Renaming

end Circuit

end QubitLab
