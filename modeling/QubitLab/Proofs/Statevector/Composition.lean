import Mathlib.Algebra.Group.Basic
import Mathlib.Algebra.Ring.Defs
import QubitLab.Proofs.Statevector.Sums

/-!
# Actions one after the other

Two actions on the same qubits make one. Two matrices on a target multiply, with or
without controls, because what is done under controls reads no amplitude outside of
them. Two exchanges undo each other.

The product of the matrices is where the laws of a ring are needed. That it is
commutative is not.

## Theorems

* `act_congr`: An action reads the amplitudes of the register only.
* `pairAct_pairAct`, `pairAct_one`, `swapAct_swapAct`: One amplitude.
* `underControls_underControls`: Two actions under the same controls.
* `apply_matrix_matrix`, `apply_matrix_one`, `apply_swap_swap`: Whole buffers.
-/

namespace QubitLab

open Statevector

namespace Buffer

section Controls

variable {K : Type}

/-- Under controls, actions agree where they leave and give the same amplitudes. -/
theorem underControls_congr {controls : List Nat} {act act' : (Nat → K) → Nat → K}
    {ψ φ : Nat → K} {i : Nat} (hstay : ψ i = φ i) (hact : act ψ i = act' φ i) :
    underControls controls act ψ i = underControls controls act' φ i := by
  rw [underControls, underControls, hstay, hact]

theorem underControls_of_eq {controls : List Nat} {act : (Nat → K) → Nat → K} {ψ : Nat → K}
    {i : Nat} (h : act ψ i = ψ i) : underControls controls act ψ i = ψ i := by
  rw [underControls, h, ite_self]

/-- Two actions under the same controls are one action under these controls, as long
    as the second one reads no amplitude where the controls are different. -/
theorem underControls_underControls {controls : List Nat} {act act' : (Nat → K) → Nat → K}
    {i : Nat} (hlocal : ∀ ψ φ : Nat → K,
      (∀ j, controls.all j.testBit = controls.all i.testBit → ψ j = φ j) → act' ψ i = act' φ i)
    (ψ : Nat → K) :
    underControls controls act' (underControls controls act ψ) i
      = underControls controls (fun ψ => act' (act ψ)) ψ i := by
  by_cases hall : controls.all i.testBit = true
  · rw [underControls, if_pos hall, underControls, if_pos hall]
    -- The second action reads amplitudes with the same controls, all of which the first one has
    -- been at.
    refine hlocal _ _ fun j hj => ?_
    rw [underControls, if_pos (hj.trans hall)]
  · rw [underControls, if_neg hall, underControls, if_neg hall, underControls, if_neg hall]

/-- Writing a bit that is no control leaves the controls as they are. -/
theorem all_testBit_withBit {controls : List Nat} {q : Nat} (hq : q ∉ controls) (i : Nat)
    (b : Bool) : controls.all (withBit i q b).testBit = controls.all i.testBit := by
  rw [Bool.eq_iff_iff, List.all_eq_true, List.all_eq_true]
  refine forall_congr' fun p => imp_congr_right fun hp => ?_
  have hne : p ≠ q := fun h => hq (h ▸ hp)
  rw [testBit_withBit_ne hne]

/-- Exchanging two qubits that are no controls leaves the controls as they are. -/
theorem all_testBit_exchange {controls : List Nat} {a b : Nat} (ha : a ∉ controls)
    (hb : b ∉ controls) (i : Nat) :
    controls.all (exchange a b i).testBit = controls.all i.testBit := by
  rw [exchange, all_testBit_withBit hb, all_testBit_withBit ha]

end Controls

section Pairs

variable {K : Type} [Semiring K]

/-- The two rows of the matrix against the members of the pair. -/
theorem pairAct_eq (target : Nat) (m : Matrix2 K) (ψ : Nat → K) (i : Nat) :
    pairAct target m ψ i =
      if i.testBit target then m.m10 * ψ (withBit i target false) + m.m11 * ψ (withBit i target true)
      else m.m00 * ψ (withBit i target false) + m.m01 * ψ (withBit i target true) := rfl

/-- Two matrices on a qubit are the product of them. -/
theorem pairAct_pairAct (target : Nat) (m m' : Matrix2 K) (ψ : Nat → K) (i : Nat) :
    pairAct target m' (pairAct target m ψ) i = pairAct target (m'.mul m) ψ i := by
  have hzero : pairAct target m ψ (withBit i target false)
      = m.m00 * ψ (withBit i target false) + m.m01 * ψ (withBit i target true) := by
    rw [pairAct_eq, testBit_withBit_self, withBit_withBit, withBit_withBit]
    rfl
  have hone : pairAct target m ψ (withBit i target true)
      = m.m10 * ψ (withBit i target false) + m.m11 * ψ (withBit i target true) := by
    rw [pairAct_eq, testBit_withBit_self, withBit_withBit, withBit_withBit]
    rfl
  -- A row of the one matrix against the columns of the other.
  have hrow : ∀ a b : K,
      a * pairAct target m ψ (withBit i target false)
        + b * pairAct target m ψ (withBit i target true)
      = (a * m.m00 + b * m.m10) * ψ (withBit i target false)
        + (a * m.m01 + b * m.m11) * ψ (withBit i target true) := by
    intro a b
    rw [hzero, hone, mul_add, mul_add, add_add_add_comm, ← mul_assoc, ← mul_assoc, ← mul_assoc,
      ← mul_assoc, ← add_mul, ← add_mul]
  rw [pairAct_eq target m', hrow, hrow]
  rfl

/-- The identity matrix does nothing. -/
theorem pairAct_one (target : Nat) (ψ : Nat → K) (i : Nat) :
    pairAct target ⟨1, 0, 0, 1⟩ ψ i = ψ i := by
  rw [pairAct_eq]
  by_cases hbit : i.testBit target = true
  · rw [if_pos hbit, zero_mul, zero_add, one_mul, withBit_of_testBit hbit]
  · rw [if_neg hbit, zero_mul, add_zero, one_mul,
      withBit_of_testBit (Bool.eq_false_iff.mpr hbit)]

omit [Semiring K] in
theorem swapAct_swapAct (a b : Nat) (ψ : Nat → K) (i : Nat) :
    swapAct a b (swapAct a b ψ) i = ψ i := by
  rw [swapAct, swapAct, exchange_exchange]

end Pairs

end Buffer

namespace GateAction

variable {n : Nat}

/-- What an action does inside the register is a matter of the amplitudes inside the
    register. -/
theorem act_congr {K : Type} [Zero K] [Add K] [Mul K] {a : GateAction K} (ha : a.Fits n)
    {ψ φ : Nat → K} (h : ∀ i, i < 2 ^ n → ψ i = φ i) {i : Nat} (hi : i < 2 ^ n) :
    a.act ψ i = a.act φ i := by
  cases a with
  | matrix controls target m =>
      refine Buffer.underControls_congr (h i hi) ?_
      unfold Buffer.pairAct
      rw [h _ (withBit_lt hi ha.target_lt false), h _ (withBit_lt hi ha.target_lt true)]
  | swap controls a b =>
      exact Buffer.underControls_congr (h i hi) (h _ (exchange_lt hi ha.swap_lt.1 ha.swap_lt.2))
  | dense qubits m =>
      change Buffer.denseAct qubits m ψ i = Buffer.denseAct qubits m φ i
      unfold Buffer.denseAct
      congr 1
      exact List.map_congr_left fun r _ => h _ (place_lt ha.1 hi ha.2.1 r)

/-- One action after another, amplitude by amplitude. -/
theorem amplitude_apply_apply {K : Type} [Zero K] [Add K] [Mul K] {a a' : GateAction K}
    (ha : a.Fits n) (ha' : a'.Fits n) {s : Buffer K} (hbuf : s.size = 2 ^ n) {i : Nat}
    (hi : i < 2 ^ n) : (a'.apply (a.apply s)).amplitude i = a'.act (a.act s.amplitude) i := by
  -- The second action reads inside the register, where the first one is known.
  rw [amplitude_apply ha' ((size_apply a s).trans hbuf) hi]
  exact act_congr ha' (fun j hj => amplitude_apply ha hbuf hj) hi

/-- Buffers of a register are equal when they are so inside the register. -/
theorem apply_apply_eq {K : Type} [Zero K] [Add K] [Mul K] {a a' : GateAction K}
    (ha : a.Fits n) (ha' : a'.Fits n) {s u : Buffer K} (hbuf : s.size = 2 ^ n)
    (hu : u.size = 2 ^ n)
    (h : ∀ i, i < 2 ^ n → a'.act (a.act s.amplitude) i = u.amplitude i) :
    a'.apply (a.apply s) = u := by
  have hsize : (a'.apply (a.apply s)).size = 2 ^ n := by
    rw [size_apply, size_apply, hbuf]
  refine Buffer.ext_amplitude (hsize.trans hu.symm) fun i hi => ?_
  rw [hsize] at hi
  rw [amplitude_apply_apply ha ha' hbuf hi, h i hi]

theorem Fits.of_matrix {K : Type} {controls : List Nat} {target : Nat} {m : Matrix2 K}
    (ha : (matrix controls target m).Fits n) (m' : Matrix2 K) :
    (matrix controls target m').Fits n := ha

section Rings

variable {K : Type} [Semiring K] {controls : List Nat} {s : Buffer K}

/-- Two matrices on the same target are their product. -/
theorem apply_matrix_matrix {target : Nat} {m : Matrix2 K}
    (ha : (matrix controls target m).Fits n) (hbuf : s.size = 2 ^ n) (m' : Matrix2 K) :
    (matrix controls target m').apply ((matrix controls target m).apply s)
      = (matrix controls target (m'.mul m)).apply s := by
  refine apply_apply_eq ha (ha.of_matrix m') hbuf ((size_apply _ s).trans hbuf) fun i hi => ?_
  rw [amplitude_apply (ha.of_matrix _) hbuf hi]
  refine (Buffer.underControls_underControls (fun ψ φ h => ?_) _).trans ?_
  · have hpair := Buffer.all_testBit_withBit ha.target_not_mem i
    unfold Buffer.pairAct
    rw [h _ (hpair false), h _ (hpair true)]
  · exact Buffer.underControls_congr rfl (Buffer.pairAct_pairAct target m m' _ i)

/-- The identity matrix leaves the buffer as it is. -/
theorem apply_matrix_one {target : Nat}
    (ha : (matrix controls target (⟨1, 0, 0, 1⟩ : Matrix2 K)).Fits n) (hbuf : s.size = 2 ^ n) :
    (matrix controls target ⟨1, 0, 0, 1⟩).apply s = s := by
  refine Buffer.ext_amplitude (size_apply _ s) fun i hi => ?_
  rw [size_apply, hbuf] at hi
  exact (amplitude_apply ha hbuf hi).trans
    (Buffer.underControls_of_eq (Buffer.pairAct_one target s.amplitude i))

/-- An exchange undoes itself. -/
theorem apply_swap_swap {a b : Nat} (ha : (swap controls a b : GateAction K).Fits n)
    (hbuf : s.size = 2 ^ n) :
    (swap controls a b).apply ((swap controls a b).apply s) = s := by
  rcases ha.swap_distinct with ⟨-, hac, hbc⟩
  refine apply_apply_eq ha ha hbuf hbuf fun i hi => ?_
  refine (Buffer.underControls_underControls (fun ψ φ h => ?_) _).trans ?_
  · exact h _ (Buffer.all_testBit_exchange hac hbc i)
  · exact Buffer.underControls_of_eq (Buffer.swapAct_swapAct a b _ i)

end Rings

end GateAction

end QubitLab
