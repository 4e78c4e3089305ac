import QubitLab.Proofs.Exact.Unitary
import QubitLab.Proofs.Rewrite.Fuse
import QubitLab.Proofs.Simulator.Running
import QubitLab.Proofs.Statevector.Composition

/-!
# The rewriting rules are sound

The tables of the rewriter say which kinds of gates undo each other and which add
their angles. They are words about names. What the names stand for is decided in two
other places, in the matrices of the gates and in the kernels that apply them. Over
exact scalars the three agree: a gate and one that undoes it restore the state, and
two gates whose angles add up do what one gate with the sum does.

Most of this is about matrices of two rows, since two actions on the same target and
under the same controls are one, with the product of the matrices. The exchanges are
the exception, and undo themselves.

## Theorems

* `shape_of_cancels`: Kinds that undo each other have the same shape.
* `mul_of_cancels`, `mul_of_fused?`: The matrices behind the tables.
* `apply_of_cancels`, `apply_of_fused?`: The buffers.
* `rules_sound`: The tables are sound for the simulator.
-/

namespace QubitLab

namespace Rewrite

section Shapes

/-- Kinds that undo each other divide their qubits into controls and targets in the
    same way. -/
theorem shape_of_cancels {k l : GateKind} (h : k.cancels l = true) :
    l.arity? = k.arity? ∧ l.controlCount = k.controlCount ∧
      l.isSwapFamily = k.isSwapFamily := by
  rw [GateKind.cancels, beq_iff_eq] at h
  cases k <;> simp only [GateKind.inverse?, Option.some.injEq, reduceCtorEq] at h <;>
    subst h <;> exact ⟨rfl, rfl, rfl⟩

end Shapes

section Matrices

/-- What undoes a gate has the inverse of its matrix. -/
theorem mul_of_cancels {g h : Gate ℝ} (hc : g.kind.cancels h.kind = true)
    (hs : g.kind.isSwapFamily = false) :
    ∃ m m', g.targetMatrix? = some m ∧ h.targetMatrix? = some m' ∧
      m'.mul m = Unitary.identity := by
  rw [GateKind.cancels, beq_iff_eq] at hc
  unfold Gate.targetMatrix?
  cases hk : g.kind <;> rw [hk] at hc hs <;>
    simp only [GateKind.inverse?, Option.some.injEq, reduceCtorEq] at hc <;>
    rw [← hc]
  -- One case for each entry of the table.
  case h => exact ⟨_, _, rfl, rfl, Unitary.hadamard_mul_hadamard⟩
  case s => exact ⟨_, _, rfl, rfl, Unitary.sInverse_mul_s⟩
  case sdg => exact ⟨_, _, rfl, rfl, Unitary.s_mul_sInverse⟩
  case t => exact ⟨_, _, rfl, rfl, Unitary.tInverse_mul_t⟩
  case tdg => exact ⟨_, _, rfl, rfl, Unitary.t_mul_tInverse⟩
  case sx => exact ⟨_, _, rfl, rfl, Unitary.sqrtXInverse_mul_sqrtX⟩
  case sxdg => exact ⟨_, _, rfl, rfl, Unitary.sqrtX_mul_sqrtXInverse⟩
  case x | cx | ccx => exact ⟨_, _, rfl, rfl, Unitary.pauliX_mul_pauliX⟩
  case y | cy => exact ⟨_, _, rfl, rfl, Unitary.pauliY_mul_pauliY⟩
  case z | cz | ccz => exact ⟨_, _, rfl, rfl, Unitary.pauliZ_mul_pauliZ⟩
  case swap | cswap => exact absurd hs (by decide)

/-- What two gates of one angle are fused into has the product of their matrices. -/
theorem mul_of_fused? {g h f : Gate ℝ} {x y : ℝ}
    (hk : g.kind.fused? h.kind = some f.kind) (hx : g.params = [x]) (hy : h.params = [y])
    (hf : f.params = [x + y]) :
    ∃ m m', g.targetMatrix? = some m ∧ h.targetMatrix? = some m' ∧
      f.targetMatrix? = some (m'.mul m) := by
  rcases fused?_eq_some hk with ⟨hh, hfk, hadd⟩
  have hgx : g.param 0 = x := by rw [Gate.param, hx]; rfl
  have hhy : h.param 0 = y := by rw [Gate.param, hy]; rfl
  have hfz : f.param 0 = x + y := by rw [Gate.param, hf]; rfl
  unfold Gate.targetMatrix?
  rw [hh, hfk, hgx, hhy, hfz]
  cases hg : g.kind <;> rw [hg] at hadd <;>
    simp only [GateKind.isAdditive, Bool.false_eq_true] at hadd
  case rx | crx => exact ⟨_, _, rfl, rfl, by rw [Unitary.rotationX_add]⟩
  case ry | cry => exact ⟨_, _, rfl, rfl, by rw [Unitary.rotationY_add]⟩
  case rz | crz => exact ⟨_, _, rfl, rfl, by rw [Unitary.rotationZ_add]⟩
  case p | u1 | cp | cu1 => exact ⟨_, _, rfl, rfl, by rw [Unitary.phase_add]⟩

end Matrices

section Buffers

variable {n : Nat}

/-- A gate and what undoes it, on the same qubits, restore the buffer. -/
theorem apply_of_cancels {g h : Gate ℝ} (hg : g.Shaped n)
    (hq : h.qubits = g.qubits) (hc : g.kind.cancels h.kind = true) :
    ∃ a a', g.action = .ok a ∧ h.action = .ok a' ∧
      ∀ s : Buffer (Complex ℝ), s.size = 2 ^ n → a'.apply (a.apply s) = s := by
  rcases shape_of_cancels hc with ⟨-, hcount, hfamily⟩
  cases hs : g.kind.isSwapFamily with
  | true =>
      rcases hg.split_swap hs with ⟨controls, a, b, hsplit, hlen⟩
      have ha := Gate.action_eq_swap hs hsplit hlen
      have ha' := Gate.action_eq_swap (hfamily.trans hs) (hq.trans hsplit) (hlen.trans hcount.symm)
      exact ⟨_, _, ha, ha', fun s hbuf => GateAction.apply_swap_swap (Gate.fits_action hg ha) hbuf⟩
  | false =>
      rcases mul_of_cancels hc hs with ⟨m, m', hm, hm', hmul⟩
      rcases hg.split_target hm with ⟨controls, target, hsplit, hlen⟩
      have ha := Gate.action_eq_matrix hm hsplit hlen
      have ha' := Gate.action_eq_matrix hm' (hq.trans hsplit) (hlen.trans hcount.symm)
      refine ⟨_, _, ha, ha', fun s hbuf => ?_⟩
      rw [GateAction.apply_matrix_matrix (Gate.fits_action hg ha) hbuf, hmul]
      exact GateAction.apply_matrix_one ((Gate.fits_action hg ha).of_matrix _) hbuf

/-- Two gates of one angle do to a buffer what one gate with the sum does. -/
theorem apply_of_fused? {g h f : Gate ℝ} {x y : ℝ} (hg : g.Shaped n)
    (hq : h.qubits = g.qubits) (hfq : f.qubits = g.qubits)
    (hk : g.kind.fused? h.kind = some f.kind) (hx : g.params = [x]) (hy : h.params = [y])
    (hf : f.params = [x + y]) :
    ∃ a a' b, g.action = .ok a ∧ h.action = .ok a' ∧ f.action = .ok b ∧
      ∀ s : Buffer (Complex ℝ), s.size = 2 ^ n → a'.apply (a.apply s) = b.apply s := by
  rcases fused?_eq_some hk with ⟨hkh, hkf, -⟩
  rcases mul_of_fused? hk hx hy hf with ⟨m, m', hm, hm', hmul⟩
  rcases hg.split_target hm with ⟨controls, target, hsplit, hlen⟩
  have ha := Gate.action_eq_matrix hm hsplit hlen
  have ha' := Gate.action_eq_matrix hm' (hq.trans hsplit) (by rw [hkh]; exact hlen)
  have hb := Gate.action_eq_matrix hmul (hfq.trans hsplit) (by rw [hkf]; exact hlen)
  exact ⟨_, _, _, ha, ha', hb, fun s hbuf =>
    GateAction.apply_matrix_matrix (Gate.fits_action hg ha) hbuf m'⟩

end Buffers

section Rules

open Simulator Transition

variable {G : Type}

/-- Two gates on the same distinct qubits of a simulator: if the table says that the
    second one undoes the first one, then applying both leaves the simulator as it was,
    and if the table says that their angles add up, then applying both comes to the same
    as applying the gate with the sum. In either case all gates are accepted. -/
theorem rules_sound {s : Simulator ℝ G} (hbuf : s.buffer.size = 2 ^ s.numQubits)
    {g h : Gate ℝ} (hn : ∀ q ∈ g.qubits, q < s.numQubits) (hd : g.qubits.Nodup)
    (ha : g.kind.arity? = some g.qubits.length) (hq : h.qubits = g.qubits) :
    (g.kind.cancels h.kind = true →
      Answers (do applyGate g; applyGate h : Step ℝ G Unit) s () s) ∧
    ∀ k x y, g.kind.fused? h.kind = some k → g.params = [x] → h.params = [y] →
      ∃ t, Answers (do applyGate g; applyGate h : Step ℝ G Unit) s () t ∧
        Answers (applyGate ⟨k, g.qubits, [x + y], none⟩ : Step ℝ G Unit) s () t := by
  -- All gates are on the same qubits, so one check of the shape does for all.
  have hshape : ∀ f : Gate ℝ, f.qubits = g.qubits → f.kind.arity? = g.kind.arity? →
      f.Shaped s.numQubits := by
    intro f hfq hfa
    refine ⟨hfq ▸ hn, fun arity harity => ?_, hfq ▸ hd⟩
    rw [hfa, ha, Option.some.injEq] at harity
    rw [hfq, harity]
  have hg := hshape g rfl rfl
  have hpair : ∀ {a a' : GateAction (Complex ℝ)}, h.Shaped s.numQubits → g.action = .ok a →
      h.action = .ok a' →
      Answers (do applyGate g; applyGate h : Step ℝ G Unit) s ()
        (s.withBuffer (a'.apply (a.apply s.buffer))) := by
    intro a a' hh hga hha
    refine (answers_bind _ _ s _ ()).mpr ⟨(), s.withBuffer (a.apply s.buffer), ?_, ?_⟩
    · exact (answers_applyGate g s _).mpr ⟨hg, a, hga, rfl⟩
    · exact (answers_applyGate h _ _).mpr ⟨hh, a', hha, rfl⟩
  constructor
  · intro hc
    have hh := hshape h hq (shape_of_cancels hc).1
    rcases apply_of_cancels hg hq hc with ⟨a, a', hga, hha, happly⟩
    have hboth := hpair hh hga hha
    rw [happly s.buffer hbuf] at hboth
    exact hboth
  · intro k x y hk hx hy
    rcases fused?_eq_some hk with ⟨hkh, hkf, -⟩
    have hh := hshape h hq (by rw [hkh])
    have hf := hshape ⟨k, g.qubits, [x + y], none⟩ rfl (by rw [hkf])
    rcases @apply_of_fused? _ g h ⟨k, g.qubits, [x + y], none⟩ x y hg hq rfl hk hx hy rfl with
      ⟨a, a', b, hga, hha, hfb, happly⟩
    refine ⟨_, hpair hh hga hha, (answers_applyGate _ s _).mpr ⟨hf, b, hfb, ?_⟩⟩
    rw [happly s.buffer hbuf]

/-- A register of two qubits in some state. -/
noncomputable def pair : Simulator ℝ Unit where
  numQubits := 2
  buffer := #[1, Complex.i, -1, Complex.polar 1 Scalar.pi]
  snapshots := .empty
  noise := none
  generator := ()

theorem pair_rules_sound :
    Answers (do applyGate ⟨.cy, [1, 0], [], none⟩; applyGate ⟨.cy, [1, 0], [], none⟩ :
      Step ℝ Unit Unit) pair () pair ∧
    ∃ t, Answers (do applyGate ⟨.crx, [1, 0], [2], none⟩; applyGate ⟨.crx, [1, 0], [3], none⟩ :
        Step ℝ Unit Unit) pair () t ∧
      Answers (applyGate ⟨.crx, [1, 0], [2 + 3], none⟩ : Step ℝ Unit Unit) pair () t := by
  have hn : ∀ q ∈ [1, 0], q < pair.numQubits := by decide
  have hcy := @rules_sound Unit pair rfl ⟨.cy, [1, 0], [], none⟩ ⟨.cy, [1, 0], [], none⟩ hn
    (by decide) rfl rfl
  have hcrx := @rules_sound Unit pair rfl ⟨.crx, [1, 0], [2], none⟩ ⟨.crx, [1, 0], [3], none⟩ hn
    (by decide) rfl rfl
  exact ⟨hcy.1 rfl, hcrx.2 .crx 2 3 rfl rfl rfl⟩

end Rules

end Rewrite

end QubitLab
