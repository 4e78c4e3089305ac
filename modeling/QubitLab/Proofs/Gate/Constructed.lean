import QubitLab.Double.Scalar
import QubitLab.Proofs.Gate.Action
import QubitLab.Proofs.Gate.Statement

/-!
# Gates that a constructor could have made

A gate that is read from stored data has been through no constructor, so it is checked
afterwards. The check makes the gate again and throws the result away. What it makes is
not the gate that is there: it hands a constructor the fields that this constructor takes,
and a field that the constructor has no use for is not looked at. So a gate of a built-in
kind passes with a custom matrix attached to it, and a custom gate passes with angles.

`checkedPart` is the gate without such a leftover. The check is one of the checked part, and
a gate is its own checked part exactly when its matrix and its angles are those that its kind
asks for. A leftover does not change what the gate does to amplitudes, but the custom matrix
brings a name with it, and that is the name in a program.

## Main definitions

* `Gate.Constructed`: A gate that a constructor answers with.
* `Gate.Regular`: The gate has the matrix and the number of angles that its kind asks for.
* `Gate.checkedPart`: What the check of a gate looks at.

## Theorems

* `validate_checkedPart`: The check does not look at the rest.
* `constructed_iff`: A gate is constructed when it is accepted and regular.
* `action_checkedPart`: An accepted gate does what its checked part does.
* `validate_iff_constructed`: What the check says about the constructors.
-/

namespace QubitLab

namespace Gate

variable {R : Type} [Scalar R]

/-- The gate is what one of the constructors answers with. -/
inductive Constructed : Gate R → Prop where
  /-- The constructor of the built-in kinds. -/
  | builtin {kind : GateKind} {qubits : List Nat} {params : List R} {g : Gate R}
      (h : builtin kind qubits params = .ok g) : Constructed g
  /-- The constructor of the custom gates. -/
  | custom {name : String} {matrix : Rows (Complex R)} {qubits : List Nat} {g : Gate R}
      (h : custom name matrix qubits = .ok g) : Constructed g

omit [Scalar R] in
/-- The gate has a custom matrix exactly when it is of the custom kind, and as many angles
    as its kind asks for. -/
structure Regular (g : Gate R) : Prop where
  /-- Custom gates, and no others, have a matrix of their own. -/
  payload : g.payload.isSome ↔ g.kind = .custom
  /-- The number of angles is that of the kind. -/
  params : g.params.length = g.kind.paramCount

omit [Scalar R] in
/-- The gate without what its check does not look at: the angles of a custom gate, and the
    custom matrix of any other. -/
def checkedPart (g : Gate R) : Gate R :=
  if g.kind = .custom then { g with params := [] } else { g with payload := none }

omit [Scalar R] in
theorem checkedPart_of_custom {g : Gate R} (hk : g.kind = .custom) :
    g.checkedPart = { g with params := [] } := if_pos hk

omit [Scalar R] in
theorem checkedPart_of_ne_custom {g : Gate R} (hk : g.kind ≠ .custom) :
    g.checkedPart = { g with payload := none } := if_neg hk

section Acceptance

/-- What the check makes of a custom gate. -/
theorem validate_of_custom {g : Gate R} (hk : g.kind = .custom) :
    g.validate = .ok () ↔
      ∃ p, g.payload = some p ∧
        custom p.name p.matrix g.qubits = .ok ⟨.custom, g.qubits, [], some p⟩ := by
  rw [validate_eq_ok, hk]
  simp only [custom_eq_ok, GateKind.arity?, reduceCtorEq, false_and, or_false, true_and, and_true]

/-- What the check makes of any other gate. -/
theorem validate_of_ne_custom {g : Gate R} (hk : g.kind ≠ .custom) :
    g.validate = .ok () ↔
      builtin g.kind g.qubits g.params = .ok ⟨g.kind, g.qubits, g.params, none⟩ := by
  rw [validate_eq_ok, builtin_eq_ok]
  simp only [hk, false_and, and_false, exists_false, false_or, and_true]

/-- The check of a gate is the check of its checked part. -/
theorem validate_checkedPart (g : Gate R) :
    g.checkedPart.validate = .ok () ↔ g.validate = .ok () := by
  by_cases hk : g.kind = .custom
  · rw [checkedPart_of_custom hk, validate_of_custom hk]
    exact validate_of_custom (g := { g with params := [] }) hk
  · rw [checkedPart_of_ne_custom hk, validate_of_ne_custom hk]
    exact validate_of_ne_custom (g := { g with payload := none }) hk

/-- A gate that is accepted is the work of a constructor, up to what the check leaves out. -/
theorem constructed_checkedPart {g : Gate R} (h : g.validate = .ok ()) :
    Constructed g.checkedPart := by
  by_cases hk : g.kind = .custom
  · rcases (validate_of_custom hk).mp h with ⟨p, hp, hmade⟩
    rw [checkedPart_of_custom hk, hk, hp]
    exact .custom hmade
  · rw [checkedPart_of_ne_custom hk]
    exact .builtin ((validate_of_ne_custom hk).mp h)

/-- A gate from a constructor is accepted, and nothing is left over on it. -/
theorem Constructed.accepted {g : Gate R} (h : Constructed g) :
    g.validate = .ok () ∧ g.Regular := by
  cases h with
  | @builtin kind qubits params g h =>
      rcases (builtin_eq_ok _ _ _ _).mp h with ⟨ha, hp, hd, rfl⟩
      -- The custom kind has no number of qubits of its own.
      have hk : kind ≠ .custom := fun hk => by simp [hk, GateKind.arity?] at ha
      exact ⟨(validate_eq_ok _).mpr (Or.inr ⟨ha, hp, hd⟩),
        ⟨iff_of_false Bool.false_ne_true hk, ((checkParams_eq_ok _ _).mp hp).1⟩⟩
  | custom h =>
      rcases (custom_eq_ok _ _ _ _).mp h with ⟨hh, hd, hs, hu, rfl⟩
      exact ⟨(validate_eq_ok _).mpr (Or.inl ⟨_, rfl, rfl, hh, hd, hs, hu⟩),
        ⟨iff_of_true rfl rfl, rfl⟩⟩

omit [Scalar R] in
theorem Regular.payload_eq_none {g : Gate R} (h : g.Regular) (hk : g.kind ≠ .custom) :
    g.payload = none := by
  rw [← Option.not_isSome_iff_eq_none, h.payload]
  exact hk

omit [Scalar R] in
/-- A regular gate has no leftover. -/
theorem Regular.checkedPart_eq {g : Gate R} (h : g.Regular) : g.checkedPart = g := by
  by_cases hk : g.kind = .custom
  · have hlen := h.params
    rw [hk] at hlen
    rw [checkedPart_of_custom hk, ← List.length_eq_zero_iff.mp hlen]
  · rw [checkedPart_of_ne_custom hk, ← h.payload_eq_none hk]

theorem constructed_iff (g : Gate R) : Constructed g ↔ g.validate = .ok () ∧ g.Regular := by
  refine ⟨Constructed.accepted, fun ⟨haccepted, hregular⟩ => ?_⟩
  rw [← hregular.checkedPart_eq]
  exact constructed_checkedPart haccepted

end Acceptance

section Meaning

/-- A custom matrix on a gate of a built-in kind, or angles on a custom gate, do not change
    what the gate does. The name of the gate, which they may change, is read where there is
    no action. -/
theorem action_checkedPart {n : Nat} {g : Gate R} (hg : g.Fits n) :
    g.checkedPart.action = g.action := by
  by_cases hk : g.kind = .custom
  · rw [checkedPart_of_custom hk]
    rcases g with ⟨kind, qubits, params, payload⟩
    obtain rfl : kind = .custom := hk
    rfl
  · rw [checkedPart_of_ne_custom hk]
    cases hs : g.kind.isSwapFamily with
    | true =>
        rcases hg.shaped.split_swap hs with ⟨controls, a, b, hq, hlen⟩
        rw [action_eq_swap hs hq hlen]
        exact action_eq_swap (g := { g with payload := none }) hs hq hlen
    | false =>
        cases hm : g.targetMatrix? with
        | some m =>
            rcases hg.shaped.split_target hm with ⟨controls, target, hq, hlen⟩
            rw [action_eq_matrix hm hq hlen]
            exact action_eq_matrix (g := { g with payload := none }) hm hq hlen
        | none =>
            rw [action_dense hs hm, action_dense (g := { g with payload := none }) hs hm]
            rcases kind_of_targetMatrix?_eq_none hm hs with h | h | h
            · simp only [denseMatrix?, h, width]
            · simp only [denseMatrix?, h, width]
            · exact absurd h hk

omit [Scalar R] in
theorem Regular.name_eq {g : Gate R} (h : g.Regular) (hk : g.kind ≠ .custom) :
    g.name = g.kind.name := by
  rw [name, h.payload_eq_none hk]

end Meaning

/-- What the check of a gate says about the constructors. It accepts a gate when a constructor
    could have made its checked part, and a constructor could have made the gate itself when the
    matrix and the angles are moreover those that its kind asks for. An accepted gate does what
    its checked part does. Its name in a program, which ends at the parenthesis or the blank
    behind it, is that of its kind if a constructor could have made it. -/
theorem validate_iff_constructed [RealText R] (g : Gate R) :
    (g.validate = .ok () ↔ Constructed g.checkedPart) ∧
      (Constructed g ↔ g.validate = .ok () ∧ g.Regular) ∧
      (∀ n, g.Fits n → g.checkedPart.action = g.action) ∧
      (Constructed g → g.kind ≠ .custom → g.name = g.kind.name ∧
        g.qasm = g.kind.name ++ g.operands ∧
          (g.operands.toList.head? = some ' ' ∨ g.operands.toList.head? = some '(')) := by
  refine ⟨⟨constructed_checkedPart, fun h => ?_⟩, constructed_iff g, fun n => action_checkedPart,
    fun h hk => ?_⟩
  · exact (validate_checkedPart g).mp h.accepted.1
  · have hname := h.accepted.2.name_eq hk
    exact ⟨hname, hname ▸ qasm_eq g, head?_operands g⟩

/-- A rotation on the second of two qubits. -/
def turned : Gate Float := ⟨.rz, [1], [0.5], none⟩

theorem turned_constructed :
    Constructed turned ∧ turned.checkedPart.action = turned.action ∧ turned.name = "rz" := by
  obtain ⟨-, hconstructed, haction, hname⟩ := validate_iff_constructed turned
  have haccepted : turned.validate = .ok () := by decide +kernel
  have hmade : Constructed turned := hconstructed.mpr ⟨haccepted, ⟨by decide, rfl⟩⟩
  exact ⟨hmade, haction 2 ⟨by decide, haccepted⟩, (hname hmade (by decide)).1⟩

/-- A negation that a custom matrix has been attached to. -/
def renamedNegation : Gate Float := ⟨.x, [0], [], some ⟨"z", [[1, 0], [0, 1]]⟩⟩

/-- A custom gate with an angle. -/
def angledCustom : Gate Float := ⟨.custom, [0], [0.5], some ⟨"w", [[1, 0], [0, 1]]⟩⟩

/-- Both pass their check and are from no constructor. The first one is a phase flip in a
    program and a negation on amplitudes. -/
theorem leftovers_accepted :
    (renamedNegation.validate = .ok () ∧ ¬ Constructed renamedNegation ∧
      renamedNegation.qasm = "z q[0];" ∧
      renamedNegation.action = .ok (.matrix [] 0 Unitary.pauliX)) ∧
    (angledCustom.validate = .ok () ∧ ¬ Constructed angledCustom ∧
      angledCustom.qasm = "w(0.5) q[0];") := by
  refine ⟨⟨by decide +kernel, fun h => ?_, by decide +kernel, rfl⟩,
    ⟨by decide +kernel, fun h => ?_, by decide +kernel⟩⟩
  · exact absurd h.accepted.2.payload (by decide)
  · exact absurd h.accepted.2.params (by decide)

end Gate

end QubitLab
