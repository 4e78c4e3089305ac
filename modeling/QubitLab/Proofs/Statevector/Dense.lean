import Mathlib.Algebra.BigOperators.Group.Finset.Sigma
import Mathlib.Algebra.BigOperators.Ring.Finset
import QubitLab.Proofs.Statevector.Composition

/-!
# Every action as one matrix

A matrix on a target under controls and an exchange of two qubits are made by kernels
of their own, which skip the groups that stay as they are. Both could be made by the
kernel for a matrix over several qubits as well, and this module says with which
matrix. Its rows and columns are numbered by the bits of the qubits of the action, the
first qubit being the least significant one, so the controls are the low bits and the
targets stand above them.

A row of such a matrix against the members of a group is a sum in which one summand
counts, or two. `denseAct_eq_sum` writes it as a sum over the numbers below the side, and
the columns that count are found by gathering the bits of an index.

With every action in the same form, two actions on different qubits are compared once
and not kernel by kernel. The two sums are exchanged, and for that the entries of the
one matrix have to commute with those of the other.

## Main definitions

* `Rows.ofEntries`: The matrix with the given entries.
* `Rows.controlled`, `Rows.exchanging`: A matrix and an exchange under controls.
* `GateAction.fullMatrix`: The matrix of an action over all of its qubits.

## Theorems

* `dot_range`: A row against values over a range, as a sum.
* `controlledEntry_eq_zero`: The columns that do not count.
* `denseAct_eq_sum`, `denseAct_ofEntries`: What a matrix over several qubits does.
* `underControls_pairAct_eq`, `underControls_swapAct_eq`: The kernels by their matrices.
* `act_eq_denseAct`, `apply_eq_applyDense`: An action does what its matrix does.
* `denseAct_comm`, `apply_comm`: Actions on different qubits commute.
-/

namespace QubitLab

open Statevector

namespace Rows

section Entries

variable {K : Type}

/-- The square matrix with the given entries, row first. -/
def ofEntries (side : Nat) (entry : Nat → Nat → K) : Rows K :=
  (List.range side).map fun r => (List.range side).map (entry r)

theorem length_ofEntries (side : Nat) (entry : Nat → Nat → K) :
    (ofEntries side entry).length = side := by
  rw [ofEntries, List.length_map, List.length_range]

theorem isSquare_ofEntries (side : Nat) (entry : Nat → Nat → K) :
    (ofEntries side entry).isSquare side = true := by
  simp [isSquare, ofEntries]

theorem getD_ofEntries [Zero K] {side r c : Nat} (hr : r < side) (hc : c < side)
    (entry : Nat → Nat → K) : ((ofEntries side entry).getD r []).getD c 0 = entry r c := by
  simp [ofEntries, hr, hc]

/-- True when the lowest bits of a row or column, as many as there are controls, are all
    set. -/
def controlsSet (controls r : Nat) : Bool := (List.range controls).all r.testBit

variable [Zero K] [One K]

/-- The entry of a two by two matrix in the row and the column of two bits. -/
def bitEntry (m : Matrix2 K) (row column : Bool) : K :=
  match row, column with
  | false, false => m.m00
  | false, true => m.m01
  | true, false => m.m10
  | true, true => m.m11

/-- The entry of a two by two matrix under controls. In the rows and columns in which they are
    all set it is the matrix, and elsewhere the identity. -/
def controlledEntry (controls : Nat) (m : Matrix2 K) (r c : Nat) : K :=
  if controlsSet controls r && controlsSet controls c then
    bitEntry m (r.testBit controls) (c.testBit controls)
  else if c = r then 1 else 0

/-- The entry of an exchange under controls, of the two bits above them. -/
def exchangingEntry (controls r c : Nat) : K :=
  if c = (if controlsSet controls r then exchange controls (controls + 1) r else r) then 1
  else 0

/-- A two by two matrix under so many controls: the matrix where all controls are set,
    in the row as well as in the column, and the identity elsewhere. -/
def controlled (controls : Nat) (m : Matrix2 K) : Rows K :=
  ofEntries (2 ^ (controls + 1)) (controlledEntry controls m)

/-- An exchange of two qubits under so many controls, as a permutation matrix: the one
    of a row stands in the column with the two bits exchanged, if all controls are set,
    and on the diagonal otherwise. -/
def exchanging (controls : Nat) : Rows K :=
  ofEntries (2 ^ (controls + 2)) (exchangingEntry controls)

-- The control is the low bit, so the two states with an odd number change places.
example : (controlled 1 ⟨0, 1, 1, 0⟩ : Rows Int)
    = [[1, 0, 0, 0], [0, 0, 0, 1], [0, 0, 1, 0], [0, 1, 0, 0]] := by decide

example : (exchanging 0 : Rows Int)
    = [[1, 0, 0, 0], [0, 0, 1, 0], [0, 1, 0, 0], [0, 0, 0, 1]] := by decide

omit [Zero K] [One K] in
/-- The controls are the lowest bits. -/
theorem controlsSet_iff {controls r : Nat} :
    controlsSet controls r = true ↔ ∀ k, k < controls → r.testBit k = true := by
  rw [controlsSet, List.all_eq_true]
  exact forall_congr' fun k => imp_congr_left List.mem_range

/-- Where a control is not set, the row is that of the identity. -/
theorem controlledEntry_of_unset {controls r : Nat} (h : controlsSet controls r = false)
    (m : Matrix2 K) (c : Nat) : controlledEntry controls m r c = if c = r then 1 else 0 := by
  rw [controlledEntry, h, Bool.false_and, if_neg Bool.false_ne_true]

/-- Where all controls are set, in the row and in the column, it is the matrix. -/
theorem controlledEntry_of_set {controls r c : Nat} (hr : controlsSet controls r = true)
    (hc : controlsSet controls c = true) (m : Matrix2 K) :
    controlledEntry controls m r c = bitEntry m (r.testBit controls) (c.testBit controls) := by
  rw [controlledEntry, hr, hc, Bool.true_and, if_pos rfl]

/-- Where all controls are set, only the columns with the same controls count. -/
theorem controlledEntry_eq_zero {controls r c : Nat} (hr : r < 2 ^ (controls + 1))
    (hc : c < 2 ^ (controls + 1)) (hset : controlsSet controls r = true) (m : Matrix2 K)
    (hne : ∀ b, c ≠ withBit r controls b) : controlledEntry controls m r c = 0 := by
  have hunset : controlsSet controls c = false := by
    -- The column would have the controls of the row, and differ from it in the target only.
    by_contra h
    rw [Bool.not_eq_false, controlsSet_iff] at h
    rw [controlsSet_iff] at hset
    refine hne (c.testBit controls)
      (eq_of_bits hc (withBit_lt hr (Nat.lt_succ_self controls) _) fun q hq => ?_)
    rw [testBit_withBit]
    by_cases hq' : q = controls
    · rw [if_pos hq', hq']
    · rw [if_neg hq', h q (by omega), hset q (by omega)]
  have hcr : c ≠ r := by
    intro h
    rw [h, hset] at hunset
    exact absurd hunset (by simp)
  rw [controlledEntry, hset, hunset, Bool.and_false, if_neg Bool.false_ne_true, if_neg hcr]

end Entries

section Sums

variable {K : Type} [Semiring K]

/-- A sum from the left over a range of values, from any start. -/
theorem dotFrom_range' (row : List K) (start : K) (s n : Nat) (φ : Nat → K) :
    dotFrom start row ((List.range' s n).map φ)
      = start + ∑ r ∈ Finset.range n, row.getD r 0 * φ (s + r) := by
  induction row generalizing start s n with
  | nil =>
      -- A row that has ended adds zeros.
      have hzero : ∑ r ∈ Finset.range n, ([] : List K).getD r 0 * φ (s + r) = 0 :=
        Finset.sum_eq_zero fun r _ => by rw [List.getD_nil, zero_mul]
      rw [hzero, add_zero, dotFrom]
      intro a u b v h
      exact absurd h (by simp)
  | cons a rest ih =>
      cases n with
      | zero => simp [dotFrom]
      | succ n =>
          -- The first summand goes into the start, and the rest is one place further.
          have hshift : ∀ r, φ (s + 1 + r) = φ (s + (r + 1)) := by
            intro r
            congr 1
            omega
          rw [List.range'_succ, List.map_cons, dotFrom, ih, Finset.sum_range_succ']
          simp only [List.getD_cons_succ, List.getD_cons_zero, Nat.add_zero, hshift]
          rw [add_assoc, add_comm (a * φ s)]

/-- A row against values over a range. A row that is too short counts as one with
    zeros at its end. -/
theorem dot_range (row : List K) (n : Nat) (φ : Nat → K) :
    dot row ((List.range n).map φ) = ∑ r ∈ Finset.range n, row.getD r 0 * φ r := by
  rw [dot, List.range_eq_range', dotFrom_range', zero_add]
  simp only [Nat.zero_add]

end Sums

end Rows

namespace Buffer

variable {K : Type} [Semiring K] {qubits : List Nat}

/-- What a matrix over several qubits does, as a sum over its columns. -/
theorem denseAct_eq_sum (qubits : List Nat) (m : Rows K) (ψ : Nat → K) (i : Nat) :
    denseAct qubits m ψ i
      = ∑ r ∈ Finset.range (2 ^ qubits.length),
          (m.getD (gather qubits i) []).getD r 0 * ψ (place qubits i r) := by
  rw [denseAct, Rows.dot_range, Nat.one_shiftLeft]

/-- The same for a matrix that is given by its entries. -/
theorem denseAct_ofEntries {side : Nat} (hside : side = 2 ^ qubits.length)
    (entry : Nat → Nat → K) (ψ : Nat → K) (i : Nat) :
    denseAct qubits (Rows.ofEntries side entry) ψ i
      = ∑ r ∈ Finset.range (2 ^ qubits.length),
          entry (gather qubits i) r * ψ (place qubits i r) := by
  subst hside
  rw [denseAct_eq_sum]
  refine Finset.sum_congr rfl fun r hr => ?_
  rw [Rows.getD_ofEntries (gather_lt qubits i) (Finset.mem_range.mp hr)]

/-- A row that is one in the column of another member of the group, and zero beside it,
    picks the amplitude of this member. -/
theorem sum_single (hd : qubits.Nodup) {i j : Nat} (hj : clear qubits j = clear qubits i)
    {row : Nat → K} (hrow : ∀ r, row r = if r = gather qubits j then 1 else 0) (ψ : Nat → K) :
    ∑ r ∈ Finset.range (2 ^ qubits.length), row r * ψ (place qubits i r) = ψ j := by
  have hmem : gather qubits j ∈ Finset.range (2 ^ qubits.length) :=
    Finset.mem_range.mpr (gather_lt qubits j)
  rw [Finset.sum_eq_single_of_mem _ hmem]
  · rw [hrow, if_pos rfl, one_mul, place_gather_of_clear hd hj]
  · intro r _ hne
    rw [hrow, if_neg hne, zero_mul]

/-- The lowest bits of what is gathered are those of the controls, which come first. -/
theorem controlsSet_gather (controls tail : List Nat) (i : Nat) :
    Rows.controlsSet controls.length (gather (controls ++ tail) i)
      = controls.all i.testBit := by
  have hget : ∀ k (hk : k < controls.length), (controls ++ tail)[k]? = some controls[k] := by
    intro k hk
    rw [List.getElem?_append_left hk, List.getElem?_eq_getElem hk]
  rw [Bool.eq_iff_iff, Rows.controlsSet_iff, List.all_eq_true]
  constructor
  · intro h q hq
    rcases List.getElem_of_mem hq with ⟨k, hk, rfl⟩
    rw [← testBit_gather (hget k hk), h k hk]
  · intro h k hk
    rw [testBit_gather (hget k hk), h _ (List.getElem_mem hk)]

/-- A matrix under controls is a matrix over the controls and the target. -/
theorem underControls_pairAct_eq {controls : List Nat} {target : Nat}
    (hd : (controls ++ [target]).Nodup) (m : Matrix2 K) (ψ : Nat → K) (i : Nat) :
    underControls controls (pairAct target m) ψ i
      = denseAct (controls ++ [target]) (Rows.controlled controls.length m) ψ i := by
  have hlen : (controls ++ [target]).length = controls.length + 1 := List.length_append
  have htarget : (controls ++ [target])[controls.length]? = some target :=
    List.getElem?_concat_length
  have hset := controlsSet_gather controls [target] i
  rw [Rows.controlled, denseAct_ofEntries (by rw [hlen]), underControls]
  by_cases hall : controls.all i.testBit = true
  · -- The two columns that count are those of the two members of the pair.
    rw [hall] at hset
    have hcolumn : ∀ b, Rows.controlsSet controls.length
        (gather (controls ++ [target]) (withBit i target b)) = true := by
      intro b
      have hnot : target ∉ controls := fun h =>
        (List.nodup_append.mp hd).2.2 target h target List.mem_cons_self rfl
      rw [controlsSet_gather, all_testBit_withBit hnot, hall]
    -- Both members of the pair are in the group over the controls and the target.
    have hclear : ∀ b, clear (controls ++ [target]) (withBit i target b)
        = clear (controls ++ [target]) i := by
      intro b
      refine clear_eq_clear.mpr fun p hp => testBit_withBit_ne (fun h => hp ?_) i b
      rw [h]
      exact List.mem_append_right controls List.mem_cons_self
    have hterm : ∀ b, Rows.controlledEntry controls.length m (gather (controls ++ [target]) i)
          (gather (controls ++ [target]) (withBit i target b))
            * ψ (place (controls ++ [target]) i
                (gather (controls ++ [target]) (withBit i target b)))
        = Rows.bitEntry m (i.testBit target) b * ψ (withBit i target b) := by
      intro b
      rw [Rows.controlledEntry_of_set hset (hcolumn b), testBit_gather htarget,
        testBit_gather htarget, testBit_withBit_self, place_gather_of_clear hd (hclear b)]
    have hne : gather (controls ++ [target]) (withBit i target false)
        ≠ gather (controls ++ [target]) (withBit i target true) := by
      intro h
      have hbit := congrArg (fun r => r.testBit controls.length) h
      simp [testBit_gather htarget] at hbit
    rw [if_pos hall, Finset.sum_eq_add_of_mem _ _ (Finset.mem_range.mpr (gather_lt _ _))
      (Finset.mem_range.mpr (gather_lt _ _)) hne, hterm, hterm, pairAct_eq]
    · cases i.testBit target <;> rfl
    · -- Every other column has another control, and a zero.
      intro r hr hother
      rw [Rows.controlledEntry_eq_zero (hlen ▸ gather_lt _ i) (hlen ▸ Finset.mem_range.mp hr) hset,
        zero_mul]
      intro b hb
      rw [← gather_withBit hd htarget] at hb
      cases b with
      | false => exact hother.1 hb
      | true => exact hother.2 hb
  · -- A control is not set, so the row is one of the identity.
    rw [Bool.not_eq_true] at hall
    rw [hall] at hset
    rw [hall, if_neg Bool.false_ne_true]
    exact (sum_single hd rfl (Rows.controlledEntry_of_unset hset m) ψ).symm

/-- An exchange under controls is a permutation matrix over all its qubits. -/
theorem underControls_swapAct_eq {controls : List Nat} {a b : Nat}
    (hd : (controls ++ [a, b]).Nodup) (ψ : Nat → K) (i : Nat) :
    underControls controls (swapAct a b) ψ i
      = denseAct (controls ++ [a, b]) (Rows.exchanging controls.length) ψ i := by
  have hlen : (controls ++ [a, b]).length = controls.length + 2 := List.length_append
  have ha : (controls ++ [a, b])[controls.length]? = some a := by simp
  have hb : (controls ++ [a, b])[controls.length + 1]? = some b := by simp
  have hset := controlsSet_gather controls [a, b] i
  rw [Rows.exchanging, denseAct_ofEntries (by rw [hlen]), underControls]
  by_cases hall : controls.all i.testBit = true
  · -- The column of the one is that of the index with the two bits exchanged.
    have hclear : clear (controls ++ [a, b]) (exchange a b i) = clear (controls ++ [a, b]) i := by
      refine clear_eq_clear.mpr fun p hp => ?_
      have hpa : p ≠ a := fun h => hp (h ▸ by simp)
      have hpb : p ≠ b := fun h => hp (h ▸ by simp)
      rw [testBit_exchange, if_neg hpb, if_neg hpa]
    rw [if_pos hall]
    refine (sum_single hd hclear (fun r => ?_) ψ).symm
    rw [Rows.exchangingEntry, hset, if_pos hall, gather_exchange hd ha hb]
  · rw [if_neg hall]
    refine (sum_single hd rfl (fun r => ?_) ψ).symm
    rw [Rows.exchangingEntry, hset, if_neg hall]

/-- Matrices over different qubits commute: both ways give the sum over the bits of all
    the qubits, once the entries of the one matrix are moved before those of the other. -/
theorem denseAct_comm {K : Type} [CommSemiring K] {u v : List Nat} (hu : u.Nodup)
    (hv : v.Nodup) (huv : ∀ q ∈ u, q ∉ v) (m m' : Rows K) (ψ : Nat → K) (i : Nat) :
    denseAct u m (denseAct v m' ψ) i = denseAct v m' (denseAct u m ψ) i := by
  have hvu : ∀ q ∈ v, q ∉ u := fun q hq hq' => huv q hq' hq
  simp only [denseAct_eq_sum, gather_place_of_disjoint hu hvu, gather_place_of_disjoint hv huv,
    Finset.mul_sum]
  -- Both are double sums over the rows of the two groups.
  rw [Finset.sum_comm]
  refine Finset.sum_congr rfl fun r _ => Finset.sum_congr rfl fun r' _ => ?_
  rw [place_comm hv hu hvu, mul_left_comm]

end Buffer

namespace GateAction

variable {K : Type} {n : Nat}

/-- The matrix of an action over all of its qubits, the first of them being the least
    significant. -/
def fullMatrix [Zero K] [One K] : GateAction K → Rows K
  | .matrix controls _ m => Rows.controlled controls.length m
  | .swap controls _ _ => Rows.exchanging controls.length
  | .dense _ m => m

theorem length_fullMatrix [Zero K] [One K] {a : GateAction K} (ha : a.hasRows) :
    a.fullMatrix.length = 2 ^ a.qubits.length := by
  cases a with
  | matrix controls target m =>
      rw [qubits, List.length_append]
      exact Rows.length_ofEntries _ _
  | swap controls a b =>
      rw [qubits, List.length_append]
      exact Rows.length_ofEntries _ _
  | dense qubits m => exact ha

/-- An action does what its matrix over all its qubits does. -/
theorem act_eq_denseAct [Semiring K] {a : GateAction K} (ha : a.Fits n) (ψ : Nat → K)
    (i : Nat) : a.act ψ i = Buffer.denseAct a.qubits a.fullMatrix ψ i := by
  cases a with
  | matrix controls target m => exact Buffer.underControls_pairAct_eq ha.1 m ψ i
  | swap controls a b => exact Buffer.underControls_swapAct_eq ha.1 ψ i
  | dense qubits m => rfl

/-- Every kernel computes what the kernel for matrices over several qubits computes from
    the matrix of the action. -/
theorem apply_eq_applyDense [Semiring K] {a : GateAction K} (ha : a.Fits n) {s : Buffer K}
    (hbuf : s.size = 2 ^ n) : a.apply s = s.applyDense a.qubits a.fullMatrix := by
  refine Buffer.ext_amplitude
    ((size_apply a s).trans (Kernel.size_after _ s).symm) fun i hi => ?_
  rw [size_apply, hbuf] at hi
  rw [amplitude_apply ha hbuf hi,
    Buffer.amplitude_applyDense ha.1 ha.2.1 (length_fullMatrix ha.2.2) hbuf hi,
    act_eq_denseAct ha]

/-- Actions without a common qubit commute. -/
theorem apply_comm [CommSemiring K] {a b : GateAction K} (ha : a.Fits n) (hb : b.Fits n)
    (hab : ∀ q ∈ a.qubits, q ∉ b.qubits) {s : Buffer K} (hbuf : s.size = 2 ^ n) :
    a.apply (b.apply s) = b.apply (a.apply s) := by
  have hsize : (b.apply (a.apply s)).size = 2 ^ n := by rw [size_apply, size_apply, hbuf]
  refine apply_apply_eq hb ha hbuf hsize fun i hi => ?_
  rw [amplitude_apply_apply ha hb hbuf hi, act_eq_denseAct ha, act_eq_denseAct hb,
    funext (act_eq_denseAct ha s.amplitude), funext (act_eq_denseAct hb s.amplitude)]
  exact Buffer.denseAct_comm ha.1 hb.1 hab _ _ s.amplitude i

end GateAction

end QubitLab
