import QubitLab.Double.Scalar
import QubitLab.Proofs.Gate.Constructed
import QubitLab.Proofs.Simulator.Stopping

/-!
# Which gates a simulator takes

A gate is checked twice by two sets of checks. Its own check makes the gate again, and so looks
at its angles; the simulator looks at the qubits only, and reads an angle that is missing as
zero. On the qubits the two agree: inside the register, as many as the kind asks for, and none
twice. On the angles the simulator asks for nothing, so what it takes is every gate that would
pass its own check with the right number of finite angles in the place of its own.

A gate with too few or too many angles does the same as the gate whose list of angles has been
filled up with zeros or cut off. Nothing of this can fail after the buffer has been touched.

The one check on the way that looks at numbers is the one of the matrix of `iswap` and `sqiswap`.
Over doubles both matrices pass it, though the entries of the second one are rounded.

## Main definitions

* `Gate.withParams`: The gate with other angles.
* `Gate.paddedParams`: The angles of a gate, as many as its kind asks for.

## Theorems

* `fixedUnitary_double`: The fixed matrices over doubles.
* `Gate.action_padded`: The angles that are read.
* `accepted_iff_validate`: The two sets of checks.
* `applyGate_congr`: What is left when shape and action are known.
* `applyGate_iff_validate`: Which gates a simulator takes, and what it does with them.
-/

namespace QubitLab

namespace Gate

variable {R : Type} [Scalar R]

omit [Scalar R] in
/-- The same gate with other angles. -/
def withParams (g : Gate R) (angles : List R) : Gate R := { g with params := angles }

/-- As many angles as the kind asks for: a missing one is zero, and further ones are left
    out. -/
def paddedParams (g : Gate R) : List R := (List.range g.kind.paramCount).map g.param

/-- The matrix on the target reads at most as many angles as the kind asks for. -/
theorem targetMatrix?_padded (g : Gate R) :
    (g.withParams g.paddedParams).targetMatrix? = g.targetMatrix? := by
  rcases g with ⟨kind, qubits, params, payload⟩
  cases kind <;> rfl

/-- No other angles are read than those that the kind asks for. -/
theorem action_padded (g : Gate R) : (g.withParams g.paddedParams).action = g.action := by
  unfold action
  rw [targetMatrix?_padded]
  rfl

/-- Over doubles the matrices of `iswap` and `sqiswap` are unitary within the tolerance. -/
theorem fixedUnitary_double (g : Gate Float) : g.FixedUnitary :=
  ⟨fun _ => by decide +kernel, fun _ => by decide +kernel⟩

omit [Scalar R] in
theorem arity_of_ne_custom {k : GateKind} (hk : k ≠ .custom) : ∃ arity, k.arity? = some arity := by
  cases k <;> first | exact ⟨_, rfl⟩ | exact absurd rfl hk

end Gate

namespace Simulator

open Transition

variable {R G : Type} [Scalar R]

/-- A simulator takes a gate of a built-in kind exactly when the qubits of the gate are inside
    the register and the gate passes its own check with good angles in the place of its own. -/
theorem accepted_iff_validate {n : Nat} {g : Gate R} (hk : g.kind ≠ .custom) (hu : g.FixedUnitary)
    {angles : List R} (hlen : angles.length = g.kind.paramCount)
    (hfinite : ∀ x ∈ angles, Scalar.isFinite x = true) :
    Accepted n g ↔ (∀ q ∈ g.qubits, q < n) ∧ (g.withParams angles).validate = .ok () := by
  have hgood := (Gate.checkParams_eq_ok g.kind angles).mpr ⟨hlen, hfinite⟩
  have hcheck : (g.withParams angles).validate = .ok () ↔
      g.kind.arity? = some g.qubits.length ∧ g.qubits.Nodup := by
    rw [Gate.validate_of_ne_custom (g := g.withParams angles) hk, Gate.builtin_eq_ok]
    exact ⟨fun ⟨ha, _, hd, _⟩ => ⟨ha, hd⟩, fun ⟨ha, hd⟩ => ⟨ha, hgood, hd, rfl⟩⟩
  -- With good angles both sets of checks come down to the qubits.
  rw [hcheck]
  constructor
  · rintro ⟨⟨hrange, harity, hnodup⟩, -⟩
    rcases Gate.arity_of_ne_custom hk with ⟨arity, ha⟩
    exact ⟨hrange, by rw [ha, harity arity ha], hnodup⟩
  · rintro ⟨hrange, ha, hnodup⟩
    have hshape : g.Shaped n := by
      refine ⟨hrange, fun arity harity => ?_, hnodup⟩
      exact Option.some.inj (ha.symm.trans harity)
    exact ⟨hshape, hshape.exists_action hk hu⟩

/-- Shape and action are all that a simulator looks at. -/
theorem applyGate_congr {g h : Gate R} (s : Simulator R G)
    (hshape : g.checkShape s.numQubits = h.checkShape s.numQubits) (haction : g.action = h.action) :
    (applyGate g s).result = (applyGate h s).result ∧
      (applyGate g s).state = (applyGate h s).state := by
  cases hg : (applyGate g s).result with
  | ok u =>
      rcases (answers_applyGate g s _).mp ((result_eq_ok_iff _ s u).mp hg) with
        ⟨hshaped, a, ha, hstate⟩
      rw [← Gate.checkShape_eq_ok, hshape, Gate.checkShape_eq_ok] at hshaped
      have hanswers := (answers_applyGate h s _).mpr ⟨hshaped, a, haction ▸ ha, rfl⟩
      exact ⟨hanswers.1.symm, hstate.trans hanswers.2.symm⟩
  | error e =>
      have hfails := (fails_applyGate g s _ e).mp ((result_eq_error_iff _ s e).mp hg)
      rw [hshape, haction] at hfails
      have hfails' := (fails_applyGate h s _ e).mpr hfails
      exact ⟨hfails'.1.symm, hfails'.2.symm⟩

/-- What a simulator over doubles does with a gate of a built-in kind. It takes the gate exactly
    when its qubits are inside the register and it would pass its own check with any other list of
    finite angles that is as long as the kind asks for; with its own angles, if they are such a
    list. If it does not take the gate, nothing has changed. And angles that are missing are zero,
    and those that are too many are not looked at. -/
theorem applyGate_iff_validate (s : Simulator Float G) {g : Gate Float} (hk : g.kind ≠ .custom) :
    (∀ angles : List Float, angles.length = g.kind.paramCount →
      (∀ x ∈ angles, Scalar.isFinite x = true) →
      ((applyGate g s).result = .ok () ↔
        (∀ q ∈ g.qubits, q < s.numQubits) ∧ (g.withParams angles).validate = .ok ())) ∧
    (∀ e, (applyGate g s).result = .error e → (applyGate g s).state = s) ∧
    (applyGate g s).result = (applyGate (g.withParams g.paddedParams) s).result ∧
    (applyGate g s).state = (applyGate (g.withParams g.paddedParams) s).state := by
  refine ⟨fun angles hlen hfinite => ?_, fun e he => ?_, ?_⟩
  · rw [applyGate_eq_ok]
    exact accepted_iff_validate hk g.fixedUnitary_double hlen hfinite
  · exact ((fails_applyGate g s _ e).mp ((result_eq_error_iff _ s e).mp he)).2
  · exact applyGate_congr s rfl g.action_padded.symm

/-- A rotation without its angle. -/
def angleless : Gate Float := ⟨.rx, [0], [], none⟩

/-- A simulator of one qubit without noise. -/
def loneQubit : Simulator Float Unit where
  numQubits := 1
  buffer := Buffer.ground 2
  snapshots := .empty
  noise := none
  generator := ()

theorem angleless_applied :
    (applyGate angleless loneQubit).result = .ok () ∧
      (applyGate angleless loneQubit).state
        = (applyGate ⟨.rx, [0], [0], none⟩ loneQubit).state := by
  obtain ⟨hiff, -, -, hstate⟩ := applyGate_iff_validate loneQubit (g := angleless) (by decide)
  refine ⟨(hiff [0.5] rfl (by decide +kernel)).mpr ⟨by decide, by decide +kernel⟩, hstate⟩

/-- The simulator takes the gate, which does not pass its own check. -/
theorem angleless_not_validated :
    (∀ q ∈ angleless.qubits, q < loneQubit.numQubits) ∧
      (applyGate angleless loneQubit).result = .ok () ∧
      angleless.validate = .error (.invalidParameter (.wrongCount "rx" 1 0)) := by
  refine ⟨by decide, ?_, by decide +kernel⟩
  rfl

end Simulator

end QubitLab
