import Mathlib.Algebra.BigOperators.Group.Finset.Basic
import QubitLab.Proofs.Statevector.Pointwise

/-!
# Sums over a buffer

The squared norm and the probability of one are sums over the amplitudes, taken
from the left in the order of the indices. Both are folds over the list of all
indices, which is the form in which they are compared between buffers: the list can
be permuted, or split, without looking into an array.

## Theorems

* `toList_eq_map_amplitude`: A buffer is the list of its amplitudes.
* `normSq_eq_foldl`, `probabilityOfOne_eq_foldl`: The sums as folds over indices.
* `foldl_range_perm`: A fold over all indices in another order.
* `foldl_range_eq_sum`: A fold that adds up.
* `ext_amplitude`: Buffers are equal when their amplitudes are.
-/

namespace QubitLab

namespace Buffer

section Amplitudes

variable {K : Type} [Zero K]

theorem amplitude_eq_getElem (s : Buffer K) {i : Nat} (hi : i < s.size) :
    s.amplitude i = s[i] := by
  rw [amplitude, Array.getD_eq_getD_getElem?, Array.getElem?_eq_getElem hi, Option.getD_some]

/-- Buffers of one size are equal when their amplitudes are. -/
theorem ext_amplitude {s u : Buffer K} (hsize : s.size = u.size)
    (h : ∀ i, i < s.size → s.amplitude i = u.amplitude i) : s = u := by
  refine Array.ext hsize fun i hi hi' => ?_
  rw [← amplitude_eq_getElem s hi, ← amplitude_eq_getElem u hi', h i hi]

/-- A buffer is the list of its amplitudes, in order. -/
theorem toList_eq_map_amplitude (s : Buffer K) :
    s.toList = (List.range s.size).map s.amplitude := by
  refine List.ext_getElem (by rw [Array.length_toList, List.length_map, List.length_range]) ?_
  intro i hi _
  rw [Array.length_toList] at hi
  rw [Array.getElem_toList, List.getElem_map, List.getElem_range, amplitude_eq_getElem s hi]

end Amplitudes

section Folds

theorem fold_eq_foldl_range {α : Type} (n : Nat) (f : Nat → α → α) (init : α) :
    Nat.fold n (fun i _ acc => f i acc) init
      = (List.range n).foldl (fun acc i => f i acc) init := by
  induction n with
  | zero => rfl
  | succ n ih =>
      rw [Nat.fold_succ, List.range_succ, List.foldl_append, ih, List.foldl_cons,
        List.foldl_nil]

/-- A fold over all indices may be made in another order, when the order of the
    summands does not matter. -/
theorem foldl_range_perm {α : Type} {n : Nat} {σ : Nat → Nat} {f f' : α → Nat → α}
    (hσ : ((List.range n).map σ).Perm (List.range n))
    (hcomm : ∀ acc i j, f' (f' acc i) j = f' (f' acc j) i)
    (hf : ∀ acc i, i < n → f' acc (σ i) = f acc i) (init : α) :
    (List.range n).foldl f' init = (List.range n).foldl f init := by
  rw [← hσ.foldl_eq' (fun i _ j _ acc => hcomm acc i j), List.foldl_map]
  -- Summand by summand the two folds agree, as long as the indices are in the range.
  have hcongr : ∀ l : List Nat, (∀ i ∈ l, i < n) → ∀ acc,
      l.foldl (fun acc i => f' acc (σ i)) acc = l.foldl f acc := by
    intro l
    induction l with
    | nil =>
        intro _ acc
        rfl
    | cons i rest ih =>
        intro hl acc
        rw [List.foldl_cons, List.foldl_cons, hf acc i (hl i List.mem_cons_self),
          ih fun j hj => hl j (List.mem_cons_of_mem i hj)]
  exact hcongr _ (fun i hi => List.mem_range.mp hi) init

/-- A sum from the left is a sum. -/
theorem foldl_range_eq_sum {M : Type} [AddCommMonoid M] (n : Nat) (f : Nat → M) :
    (List.range n).foldl (fun acc i => acc + f i) 0 = ∑ i ∈ Finset.range n, f i := by
  induction n with
  | zero => rfl
  | succ n ih =>
      rw [List.range_succ, List.foldl_append, ih, Finset.sum_range_succ]
      rfl

end Folds

section Sums

variable {R : Type} [Scalar R]

/-- The squared norm is added up in the order of the indices. -/
theorem normSq_eq_foldl (s : Buffer (Complex R)) :
    s.normSq = (List.range s.size).foldl (fun acc i => acc + (s.amplitude i).normSq) 0 := by
  rw [normSq, ← Array.foldl_toList, toList_eq_map_amplitude, List.foldl_map]

/-- The probability of one is added up in the same order. -/
theorem probabilityOfOne_eq_foldl (s : Buffer (Complex R)) (qubit : Nat) :
    s.probabilityOfOne qubit
      = (List.range s.size).foldl (fun acc i =>
          if i.testBit qubit then acc + (s.amplitude i).normSq else acc) 0 := by
  rw [← fold_eq_foldl_range s.size fun i acc =>
    if i.testBit qubit then acc + (s.amplitude i).normSq else acc, probabilityOfOne]
  congr 1
  funext i hi acc
  rw [amplitude_eq_getElem s hi]

end Sums

end Buffer

end QubitLab
