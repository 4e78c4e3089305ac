import QubitLab.Proofs.Exact.Laws
import QubitLab.Proofs.Exact.Unitary
import QubitLab.Proofs.Simulator.Running
import QubitLab.Proofs.Statevector.Dense

/-!
# Gates as matrices over their qubits

A gate of a built-in kind could be replaced by a custom gate with the matrix of the
kind over all of its qubits. The simulator does not do so, since the kernels for
controls and exchanges are cheaper, and the results are the same. `fullMatrix?` is this
matrix, and `applyGate_eq_applyDense` the statement that it gives the same state.

Two gates without a common qubit can be applied in either order. That they commute is a
matter of their actions, and there each of them is its full matrix, so one argument
does for all kinds.

Neither statement asks for more than the laws of a commutative ring. They are made
twice, for the simulator over lawful scalars, where gates have the matrices of their
kinds, and for the kernels over any commutative ring, where the entries are arbitrary.

## Main definitions

* `Gate.fullMatrix?`: The matrix of a gate over all of its qubits.

## Theorems

* `fullMatrix?_of_action`: It is the matrix of the action.
* `applyGate_eq_applyDense`: A gate of a built-in kind does what its full matrix does.
* `applyGate_comm`: Gates without a common qubit commute.
-/

namespace QubitLab

namespace Gate

variable {R : Type} [Scalar R] {n : Nat} {g : Gate R}

/-- The matrix of a gate over all of its qubits, the first of them being the least
    significant: an exchange or a matrix on the target under the controls of the kind,
    or the matrix that the kind has over all qubits. -/
def fullMatrix? (g : Gate R) : Option (Rows (Complex R)) :=
  if g.kind.isSwapFamily then some (Rows.exchanging g.kind.controlCount)
  else
    match g.targetMatrix? with
    | some m => some (Rows.controlled g.kind.controlCount m)
    | none => g.denseMatrix?

omit [Scalar R] in
/-- An action that takes its qubits from a gate of the right shape fits. -/
theorem Shaped.fits_of_qubits {K : Type} (hg : g.Shaped n) {a : GateAction K}
    (hq : a.qubits = g.qubits) (ha : a.hasRows) : a.Fits n :=
  ⟨hq ▸ hg.2.2, hq ▸ hg.1, ha⟩

/-- The full matrix can be read off the gate or off its action. -/
theorem fullMatrix?_of_action (hg : g.Shaped n) {a : GateAction (Complex R)}
    (h : g.action = .ok a) : g.fullMatrix? = some a.fullMatrix := by
  unfold fullMatrix?
  -- The three shapes of actions, in the order in which the gate is looked up.
  cases hs : g.kind.isSwapFamily with
  | true =>
      rcases hg.split_swap hs with ⟨controls, x, y, hq, hlen⟩
      rw [action_eq_swap hs hq hlen, Except.ok.injEq] at h
      rw [if_pos rfl, ← h, GateAction.fullMatrix, hlen]
  | false =>
      rw [if_neg Bool.false_ne_true]
      cases hm : g.targetMatrix? with
      | some m =>
          rcases hg.split_target hm with ⟨controls, target, hq, hlen⟩
          rw [action_eq_matrix hm hq hlen, Except.ok.injEq] at h
          rw [← h, GateAction.fullMatrix, hlen]
      | none =>
          rw [action_dense hs hm] at h
          cases hd : g.denseMatrix? with
          | none =>
              rw [hd] at h
              exact absurd h (by simp)
          | some m =>
              rw [hd] at h
              simp only [Checks.check_bind_eq_ok, Checks.pure_eq_ok] at h
              rw [← h.2, GateAction.fullMatrix]

/-- The full matrix of a gate of a built-in kind has a row and a column for each pattern
    of the bits of its qubits. -/
theorem exists_fullMatrix? (hg : g.Fits n) (hk : g.kind ≠ .custom) :
    ∃ m, g.fullMatrix? = some m ∧ m.isSquare (2 ^ g.qubits.length) = true := by
  have hshape := hg.shaped
  unfold fullMatrix?
  cases hs : g.kind.isSwapFamily with
  | true =>
      refine ⟨_, if_pos rfl, ?_⟩
      rw [hshape.2.1 _ (arity_of_isSwapFamily hs)]
      exact Rows.isSquare_ofEntries _ _
  | false =>
      rw [if_neg Bool.false_ne_true]
      cases hm : g.targetMatrix? with
      | some m =>
          refine ⟨_, rfl, ?_⟩
          rw [hshape.2.1 _ (arity_of_targetMatrix? hm)]
          exact Rows.isSquare_ofEntries _ _
      | none =>
          -- Two kinds are left, both with a matrix over two qubits.
          rcases kind_of_targetMatrix?_eq_none hm hs with h | h | h
          · have hlen := hshape.2.1 2 (by rw [h]; rfl)
            exact ⟨Unitary.iswap, by rw [denseMatrix?, h], by rw [hlen]; rfl⟩
          · have hlen := hshape.2.1 2 (by rw [h]; rfl)
            exact ⟨Unitary.sqrtIswap, by rw [denseMatrix?, h], by rw [hlen]; rfl⟩
          · exact absurd h hk

end Gate

namespace Simulator

open Transition

variable {R G : Type} [Scalar R] [LawfulScalar R] {s : Simulator R G}

section FullMatrix

/-- A gate of a built-in kind leaves the state that its full matrix leaves, by the kernel
    for matrices over several qubits. The same holds of every action on its qubits, with
    entries and amplitudes in any commutative ring. -/
theorem applyGate_eq_applyDense (hbuf : s.buffer.size = 2 ^ s.numQubits) {kind : GateKind}
    {qubits : List Nat} {params : List R} {g : Gate R}
    (hg : Gate.builtin kind qubits params = .ok g) (hn : ∀ q ∈ qubits, q < s.numQubits) :
    (∃ m, g.fullMatrix? = some m ∧ m.isSquare (2 ^ qubits.length) = true ∧
      (g.FixedUnitary → (applyGate g s).result = .ok ()) ∧
      ((applyGate g s).result = .ok () →
        (applyGate g s).state = s.withBuffer (s.buffer.applyDense qubits m))) ∧
    ∀ (K : Type) [CommRing K] (a : GateAction K), a.qubits = qubits → a.hasRows →
      ∀ u : Buffer K, u.size = 2 ^ s.numQubits →
        a.apply u = u.applyDense qubits a.fullMatrix := by
  have hfits := Gate.fits_builtin hn hg
  rcases (Gate.builtin_eq_ok kind qubits params g).mp hg with ⟨harity, -, -, rfl⟩
  have hk : kind ≠ .custom := by
    rintro rfl
    exact absurd harity (by simp [GateKind.arity?])
  refine ⟨?_, fun K _ a hq ha u hu => ?_⟩
  · rcases Gate.exists_fullMatrix? hfits hk with ⟨m, hm, hsquare⟩
    refine ⟨m, hm, hsquare, fun hu => ?_, fun hok => ?_⟩
    · rcases succeeds_applyGate hfits hu s rfl with ⟨_, _, ⟨hok, -⟩, -⟩
      exact hok
    · -- The gate was taken, so it has an action, and the kernels are compared for that action.
      have hanswers := (result_eq_ok_iff _ s ()).mp hok
      rcases (answers_applyGate _ s _).mp hanswers with ⟨hshape, a, haction, hstate⟩
      have hfull := Gate.fullMatrix?_of_action hshape haction
      rw [hm, Option.some.injEq] at hfull
      let _ := LawfulScalar.complexRing R
      have happly := GateAction.apply_eq_applyDense (Gate.fits_action hshape haction) hbuf
      rw [Gate.qubits_action hshape haction, ← hfull] at happly
      rw [hstate]
      exact congrArg s.withBuffer happly
  · have happly := GateAction.apply_eq_applyDense (hfits.shaped.fits_of_qubits hq ha) hu
    rw [hq] at happly
    exact happly

/-- A register of three qubits in a superposition. -/
noncomputable def tilted : Simulator ℝ Unit where
  numQubits := 3
  buffer := #[0, Complex.i, 0, 0, 0, 0, -1, 1]
  snapshots := .empty
  noise := none
  generator := ()

/-- A gate whose target is below its controls, which are not in order. -/
theorem ccx_eq_applyDense :
    (applyGate ⟨.ccx, [2, 1, 0], [], none⟩ tilted).state
      = tilted.withBuffer
          (tilted.buffer.applyDense [2, 1, 0] (Rows.controlled 2 Unitary.pauliX)) := by
  have hbuiltin : Gate.builtin .ccx [2, 1, 0] [] = .ok (⟨.ccx, [2, 1, 0], [], none⟩ : Gate ℝ) := rfl
  rcases applyGate_eq_applyDense (s := tilted) rfl hbuiltin (by decide) with
    ⟨⟨m, hm, -, hsucceeds, hstate⟩, -⟩
  have hfull : m = Rows.controlled 2 Unitary.pauliX := (Option.some.inj hm).symm
  rw [hstate (hsucceeds (Gate.fixedUnitary _)), hfull]

end FullMatrix

section Commuting

/-- Gates that are accepted and have no qubit in common can be applied in either order.
    The same holds of all actions on their qubits, with entries and amplitudes in any
    commutative ring. -/
theorem applyGate_comm (hbuf : s.buffer.size = 2 ^ s.numQubits) {g h : Gate R}
    (hg : (applyGate g s).result = .ok ()) (hh : (applyGate h s).result = .ok ())
    (hgh : g.overlaps h = false) :
    (∃ t, Answers (do applyGate g; applyGate h : Step R G Unit) s () t ∧
      Answers (do applyGate h; applyGate g : Step R G Unit) s () t) ∧
    ∀ (K : Type) [CommRing K] (a b : GateAction K), a.qubits = g.qubits → b.qubits = h.qubits →
      a.hasRows → b.hasRows → ∀ u : Buffer K, u.size = 2 ^ s.numQubits →
        b.apply (a.apply u) = a.apply (b.apply u) := by
  rcases (answers_applyGate g s _).mp ((result_eq_ok_iff _ s ()).mp hg) with ⟨hgs, a, ha, -⟩
  rcases (answers_applyGate h s _).mp ((result_eq_ok_iff _ s ()).mp hh) with ⟨hhs, b, hb, -⟩
  have hdisjoint : ∀ q ∈ h.qubits, q ∉ g.qubits := by
    intro q hqh hqg
    rw [← Bool.not_eq_true, Gate.overlaps_iff] at hgh
    exact hgh ⟨q, hqg, hqh⟩
  -- The shape of a gate does not depend on the amplitudes, so it acts in any state.
  have hstep : ∀ (f : Gate R) (c : GateAction (Complex R)) (t : Buffer (Complex R)),
      f.Shaped s.numQubits → f.action = .ok c →
        Answers (applyGate f : Step R G Unit) (s.withBuffer t) () (s.withBuffer (c.apply t)) :=
    fun f c t hf hc => (answers_applyGate f _ _).mpr ⟨hf, c, hc, rfl⟩
  have hpair : ∀ (f f' : Gate R) (c c' : GateAction (Complex R)), f.Shaped s.numQubits →
      f'.Shaped s.numQubits → f.action = .ok c → f'.action = .ok c' →
        Answers (do applyGate f; applyGate f' : Step R G Unit) s ()
          (s.withBuffer (c'.apply (c.apply s.buffer))) := by
    intro f f' c c' hf hf' hc hc'
    refine (answers_bind _ _ s _ ()).mpr ⟨(), s.withBuffer (c.apply s.buffer), ?_, ?_⟩
    · exact hstep f c s.buffer hf hc
    · exact hstep f' c' (c.apply s.buffer) hf' hc'
  -- Both orders end in the same buffer, since the actions commute as matrices.
  refine ⟨⟨_, hpair g h a b hgs hhs ha hb, ?_⟩, fun K _ a b haq hbq ha hb u hu => ?_⟩
  · let _ := LawfulScalar.complexRing R
    have hcomm := GateAction.apply_comm (Gate.fits_action hhs hb) (Gate.fits_action hgs ha)
      (by rw [Gate.qubits_action hhs hb, Gate.qubits_action hgs ha]; exact hdisjoint) hbuf
    have horder := hpair h g b a hhs hgs hb ha
    exact hcomm ▸ horder
  · exact GateAction.apply_comm (hhs.fits_of_qubits hbq hb) (hgs.fits_of_qubits haq ha)
      (by rw [haq, hbq]; exact hdisjoint) hu

theorem cy_phase_commute :
    ∃ t, Answers (do applyGate ⟨.cy, [2, 0], [], none⟩; applyGate ⟨.p, [1], [2], none⟩ :
        Step ℝ Unit Unit) tilted () t ∧
      Answers (do applyGate ⟨.p, [1], [2], none⟩; applyGate ⟨.cy, [2, 0], [], none⟩ :
        Step ℝ Unit Unit) tilted () t :=
  (applyGate_comm (s := tilted) rfl rfl rfl rfl).1

end Commuting

end Simulator

end QubitLab
