import QubitLab.Proofs.Exact.Isometry
import QubitLab.Proofs.Statevector.Sizes

/-!
# Norms of exact buffers

The squared norm of a buffer is a sum over all indices. To say that an action keeps it, the
sum has to be taken group by group, because it is the groups that an action mixes.
`sum_groups` does this without naming the groups: every index is replaced by all members of
its group, and every index is then counted as often as there are members. The pairs of an
index and a member are exchanged for this with an involution, which takes the member for the
index and the bits of the index for the member.

After that an action keeps the norm because its matrix does so in each group. The lowering
operator does not, nor does reading a qubit. What they leave is a probability, and dividing
by its root gives the norm one again.

## Main definitions

* `Buffer.IsState`: The amplitudes of a register, with the norm one.
* `GateAction.Isometric`: The matrix of an action has orthonormal columns.

## Theorems

* `normSq_eq_sum`, `probabilityOfOne_eq_sum`: The folds are sums.
* `sum_groups`, `sum_eq_of_groups`: Sums group by group.
* `normSq_apply`: An action keeps the norm.
* `normSq_applyMatrix_lowering`, `normSq_collapse`, `normSq_rescale`: What does not.
* `IsState.apply`, `IsState.collapse`, …: The buffers that stay states.
-/

namespace QubitLab

open Statevector

namespace Buffer

section Sums

/-- With nothing rounded, the squared norm is the sum of the squared absolute values. -/
theorem normSq_eq_sum (s : Buffer (Complex ℝ)) :
    s.normSq = ∑ i ∈ Finset.range s.size, (s.amplitude i).normSq := by
  rw [normSq_eq_foldl]
  exact foldl_range_eq_sum s.size _

/-- The probability of one is the same sum over the indices with the bit set. -/
theorem probabilityOfOne_eq_sum (s : Buffer (Complex ℝ)) (q : Nat) :
    s.probabilityOfOne q
      = ∑ i ∈ Finset.range s.size, if i.testBit q = true then (s.amplitude i).normSq else 0 := by
  have hstep : (fun (acc : ℝ) i =>
        if i.testBit q = true then acc + (s.amplitude i).normSq else acc)
      = fun acc i => acc + if i.testBit q = true then (s.amplitude i).normSq else 0 := by
    funext acc i
    rw [add_ite, add_zero]
  rw [probabilityOfOne_eq_foldl, hstep]
  exact foldl_range_eq_sum s.size _

/-- The two outcomes of a qubit share the norm. -/
theorem sum_of_outcome (s : Buffer (Complex ℝ)) (q : Nat) (outcome : Bool) :
    ∑ i ∈ Finset.range s.size, (if i.testBit q = outcome then (s.amplitude i).normSq else 0)
      = if outcome = true then s.probabilityOfOne q else s.normSq - s.probabilityOfOne q := by
  rw [probabilityOfOne_eq_sum, normSq_eq_sum]
  cases outcome with
  | true => rw [if_pos rfl]
  | false =>
      rw [if_neg Bool.false_ne_true, ← Finset.sum_sub_distrib]
      -- Summand by summand, what has the bit set is taken away from the whole.
      refine Finset.sum_congr rfl fun i _ => ?_
      cases i.testBit q <;> simp

end Sums

section Groups

variable {n : Nat} {qubits : List Nat}

/-- Every index is a member of as many groups as its group has members, when the groups
    are counted by their members. -/
theorem sum_groups (hd : qubits.Nodup) (hn : ∀ q ∈ qubits, q < n) (F : Nat → ℝ) :
    ∑ i ∈ Finset.range (2 ^ n), ∑ r ∈ Finset.range (2 ^ qubits.length), F (place qubits i r)
      = 2 ^ qubits.length * ∑ i ∈ Finset.range (2 ^ n), F i := by
  have hswap : ∀ p ∈ Finset.range (2 ^ n) ×ˢ Finset.range (2 ^ qubits.length),
      (place qubits p.1 p.2, gather qubits p.1)
        ∈ Finset.range (2 ^ n) ×ˢ Finset.range (2 ^ qubits.length) := by
    intro p hp
    rw [Finset.mem_product, Finset.mem_range, Finset.mem_range] at hp ⊢
    exact ⟨place_lt hd hp.1 hn p.2, gather_lt qubits p.1⟩
  -- The exchange of the two is its own inverse.
  have hinv : ∀ p ∈ Finset.range (2 ^ n) ×ˢ Finset.range (2 ^ qubits.length),
      (place qubits (place qubits p.1 p.2) (gather qubits p.1),
        gather qubits (place qubits p.1 p.2)) = p := by
    intro p hp
    rw [Finset.mem_product, Finset.mem_range, Finset.mem_range] at hp
    rw [place_gather_of_clear hd (clear_place hd p.1 p.2).symm, gather_place hd p.1 hp.2]
  have hcount : ∀ i, ∑ _r ∈ Finset.range (2 ^ qubits.length), F i = 2 ^ qubits.length * F i := by
    intro i
    simp
  rw [← Finset.sum_product', Finset.mul_sum, ← Finset.sum_congr rfl fun i _ => hcount i,
    ← Finset.sum_product']
  exact Finset.sum_nbij' (fun p => (place qubits p.1 p.2, gather qubits p.1))
    (fun p => (place qubits p.1 p.2, gather qubits p.1)) hswap hswap hinv hinv
    fun p _ => rfl

/-- Two sums over all indices are equal when they are so in each group. -/
theorem sum_eq_of_groups (hd : qubits.Nodup) (hn : ∀ q ∈ qubits, q < n) {F F' : Nat → ℝ}
    (h : ∀ i, i < 2 ^ n → ∑ r ∈ Finset.range (2 ^ qubits.length), F (place qubits i r)
      = ∑ r ∈ Finset.range (2 ^ qubits.length), F' (place qubits i r)) :
    ∑ i ∈ Finset.range (2 ^ n), F i = ∑ i ∈ Finset.range (2 ^ n), F' i := by
  have hsum := Finset.sum_congr rfl fun i hi => h i (Finset.mem_range.mp hi)
  rw [sum_groups hd hn F, sum_groups hd hn F'] at hsum
  exact mul_left_cancel₀ (by positivity) hsum

/-- Two sums over all indices are equal when they are so in each pair of a qubit. -/
theorem sum_eq_of_pairs {target : Nat} (ht : target < n) {F F' : Nat → ℝ}
    (h : ∀ i, F (withBit i target false) + F (withBit i target true)
      = F' (withBit i target false) + F' (withBit i target true)) :
    ∑ i ∈ Finset.range (2 ^ n), F i = ∑ i ∈ Finset.range (2 ^ n), F' i := by
  -- The pairs are the groups of the one qubit.
  have hplace : ∀ i r, place [target] i r = withBit i target (r.testBit 0) := by
    intro i r
    refine Nat.eq_of_testBit_eq fun p => ?_
    rw [testBit_place (List.nodup_singleton target), testBit_withBit]
    by_cases hp : p = target
    · rw [hp, if_pos List.mem_cons_self, if_pos rfl, List.idxOf_cons_self]
    · rw [if_neg (by simpa using hp), if_neg hp]
  refine sum_eq_of_groups (List.nodup_singleton target) (by simpa using ht) fun i _ => ?_
  simp only [hplace, List.length_singleton, pow_one, Finset.sum_range_succ, Finset.sum_range_zero,
    zero_add, Nat.zero_testBit, Nat.testBit_one_zero]
  exact h i

end Groups

section Actions

variable {n : Nat} {ψ : Nat → Complex ℝ}

/-- A matrix with orthonormal columns keeps the weight of each pair, under controls as well. -/
theorem sum_pairAct {target : Nat} (ht : target < n) {controls : List Nat}
    (hc : target ∉ controls) {m : Matrix2 (Complex ℝ)} (hm : m.Isometry) :
    ∑ i ∈ Finset.range (2 ^ n), (underControls controls (pairAct target m) ψ i).normSq
      = ∑ i ∈ Finset.range (2 ^ n), (ψ i).normSq := by
  refine sum_eq_of_pairs ht fun i => ?_
  have hboth : ∀ b, controls.all (withBit i target b).testBit = controls.all i.testBit :=
    all_testBit_withBit hc i
  simp only [underControls, hboth]
  by_cases hall : controls.all i.testBit = true
  · rw [if_pos hall, if_pos hall]
    simp only [pairAct_eq, testBit_withBit_self, withBit_withBit, Bool.false_eq_true, if_true,
      if_false]
    exact hm _ _
  · rw [if_neg hall, if_neg hall]

/-- An exchange under controls only changes the order of the amplitudes. -/
theorem sum_swapAct {a b : Nat} (han : a < n) (hbn : b < n) {controls : List Nat}
    (ha : a ∉ controls) (hb : b ∉ controls) :
    ∑ i ∈ Finset.range (2 ^ n), (underControls controls (swapAct a b) ψ i).normSq
      = ∑ i ∈ Finset.range (2 ^ n), (ψ i).normSq := by
  have hmove : ∀ i, underControls controls (swapAct a b) ψ i
      = ψ (if controls.all i.testBit = true then exchange a b i else i) := by
    intro i
    rw [underControls, swapAct, apply_ite ψ]
  have hlt : ∀ i ∈ Finset.range (2 ^ n),
      (if controls.all i.testBit = true then exchange a b i else i) ∈ Finset.range (2 ^ n) := by
    intro i hi
    rw [Finset.mem_range] at hi ⊢
    split
    · exact exchange_lt hi han hbn
    · exact hi
  -- The exchange does not touch the controls, so it undoes itself.
  have hinv : ∀ i, (if controls.all
          (if controls.all i.testBit = true then exchange a b i else i).testBit = true
        then exchange a b (if controls.all i.testBit = true then exchange a b i else i)
        else if controls.all i.testBit = true then exchange a b i else i) = i := by
    intro i
    by_cases hall : controls.all i.testBit = true
    · rw [if_pos hall, all_testBit_exchange ha hb, if_pos hall, exchange_exchange]
    · rw [if_neg hall, if_neg hall]
  simp only [hmove]
  exact Finset.sum_nbij' _ _ hlt hlt (fun i _ => hinv i) (fun i _ => hinv i) fun i _ => rfl

/-- A matrix with orthonormal columns keeps the weight of each group. -/
theorem sum_denseAct {qubits : List Nat} (hd : qubits.Nodup) (hn : ∀ q ∈ qubits, q < n)
    {m : Rows (Complex ℝ)} (hlen : m.length = 2 ^ qubits.length)
    (hm : Unitary.Orthonormal m) :
    ∑ i ∈ Finset.range (2 ^ n), (denseAct qubits m ψ i).normSq
      = ∑ i ∈ Finset.range (2 ^ n), (ψ i).normSq := by
  refine sum_eq_of_groups hd hn fun i _ => ?_
  have hmember : ∀ r c, place qubits (place qubits i r) c = place qubits i c := by
    intro r c
    rw [place, clear_place hd, place]
  -- In a group the rows of the matrix meet the members of the group.
  have hrow : ∀ r ∈ Finset.range (2 ^ qubits.length), denseAct qubits m ψ (place qubits i r)
      = ∑ c ∈ Finset.range (2 ^ qubits.length), (m.getD r []).getD c 0 * ψ (place qubits i c) := by
    intro r hr
    rw [denseAct_eq_sum, gather_place hd i (Finset.mem_range.mp hr)]
    simp only [hmember]
  rw [Finset.sum_congr rfl fun r hr => congrArg Complex.normSq (hrow r hr), ← hlen]
  exact Unitary.normSq_sum_of_orthonormal hm fun c => ψ (place qubits i c)

end Actions

end Buffer

namespace GateAction

variable {n : Nat}

/-- The matrix of the action has orthonormal columns. An exchange has none. -/
def Isometric : GateAction (Complex ℝ) → Prop
  | .matrix _ _ m => m.Isometry
  | .swap _ _ _ => True
  | .dense _ m => Unitary.Orthonormal m

/-- An isometric action keeps the sum of the squared absolute values. -/
theorem sum_act {a : GateAction (Complex ℝ)} (ha : a.Fits n) (hm : a.Isometric)
    (ψ : Nat → Complex ℝ) :
    ∑ i ∈ Finset.range (2 ^ n), (a.act ψ i).normSq
      = ∑ i ∈ Finset.range (2 ^ n), (ψ i).normSq := by
  cases a with
  | matrix controls target m => exact Buffer.sum_pairAct ha.target_lt ha.target_not_mem hm
  | swap controls x y =>
      rcases ha.swap_distinct with ⟨-, hx, hy⟩
      exact Buffer.sum_swapAct ha.swap_lt.1 ha.swap_lt.2 hx hy
  | dense qubits m => exact Buffer.sum_denseAct ha.1 ha.2.1 ha.2.2 hm

/-- And so it keeps the squared norm of a buffer. -/
theorem normSq_apply {a : GateAction (Complex ℝ)} (ha : a.Fits n) (hm : a.Isometric)
    {s : Buffer (Complex ℝ)} (hbuf : s.size = 2 ^ n) : (a.apply s).normSq = s.normSq := by
  rw [Buffer.normSq_eq_sum, Buffer.normSq_eq_sum, size_apply, hbuf]
  refine (Finset.sum_congr rfl fun i hi => ?_).trans (sum_act ha hm s.amplitude)
  rw [amplitude_apply ha hbuf (Finset.mem_range.mp hi)]

end GateAction

namespace Buffer

variable {n : Nat} {s : Buffer (Complex ℝ)}

section Scaling

theorem zeroNorm_pos : (0 : ℝ) < Scalar.zeroNorm := by
  rw [Scalar.zeroNorm, Exact.ofNat_eq]
  positivity

theorem inv_sqrt_mul_self {p : ℝ} (hp : 0 < p) :
    1 / Scalar.sqrt p * (1 / Scalar.sqrt p) = 1 / p := by
  rw [Exact.sqrt_eq, div_mul_div_comm, one_mul, Real.mul_self_sqrt hp.le]

/-- What disagrees with the outcome vanishes, and the rest is divided by the root. -/
theorem amplitude_collapse (q : Nat) (outcome : Bool) (p : ℝ) {i : Nat} (hi : i < s.size) :
    (s.collapse q outcome p).amplitude i
      = if i.testBit q = outcome then (s.amplitude i).scale (1 / Scalar.sqrt p) else 0 := by
  have hi' : i < (s.collapse q outcome p).size := by rwa [size_collapse]
  rw [amplitude_eq_getElem _ hi', amplitude_eq_getElem s hi]
  simp only [collapse, Array.getElem_mapIdx, beq_iff_eq]

/-- Reading a qubit leaves the share of the outcome, divided by a probability. -/
theorem normSq_collapse (q : Nat) (outcome : Bool) {p : ℝ} (hp : 0 < p) :
    (s.collapse q outcome p).normSq
      = 1 / p * if outcome = true then s.probabilityOfOne q
          else s.normSq - s.probabilityOfOne q := by
  rw [normSq_eq_sum, size_collapse, ← sum_of_outcome, Finset.mul_sum]
  refine Finset.sum_congr rfl fun i hi => ?_
  rw [amplitude_collapse q outcome p (Finset.mem_range.mp hi)]
  by_cases hbit : i.testBit q = outcome
  · rw [if_pos hbit, if_pos hbit, Complex.normSq_scale, inv_sqrt_mul_self hp]
  · rw [if_neg hbit, if_neg hbit, Complex.normSq_zero, mul_zero]

/-- A factor on all amplitudes comes out squared. -/
theorem normSq_map_scale (s : Buffer (Complex ℝ)) (k : ℝ) :
    Buffer.normSq (s.map fun a => a.scale k) = k * k * s.normSq := by
  rw [normSq_eq_sum, normSq_eq_sum, Array.size_map, Finset.mul_sum]
  refine Finset.sum_congr rfl fun i hi => ?_
  have hlt := Finset.mem_range.mp hi
  rw [amplitude_eq_getElem _ (by rwa [Array.size_map]), amplitude_eq_getElem s hlt,
    Array.getElem_map, Complex.normSq_scale]

/-- Dividing by the norm leaves the norm one. -/
theorem normSq_rescale (h : Scalar.zeroNorm < s.normSq) :
    (s.rescale Scalar.zeroNorm).2.normSq = 1 := by
  have hpos : 0 < s.normSq := zeroNorm_pos.trans h
  have hscaled : s.rescale Scalar.zeroNorm
      = (s.normSq, s.map fun a => a.scale (1 / Scalar.sqrt s.normSq)) :=
    if_pos ((Exact.lt_iff _ _).mpr h)
  rw [hscaled, normSq_map_scale, inv_sqrt_mul_self hpos, one_div, inv_mul_cancel₀ hpos.ne']

/-- The lowering operator leaves the part of the norm that was one. -/
theorem normSq_applyMatrix_lowering {q : Nat} (hq : q < n) (hbuf : s.size = 2 ^ n) :
    (s.applyMatrix q Unitary.lowering).normSq = s.probabilityOfOne q := by
  have hact : ∀ i ∈ Finset.range (2 ^ n), ((s.applyMatrix q Unitary.lowering).amplitude i).normSq
      = (pairAct q Unitary.lowering s.amplitude i).normSq := by
    intro i hi
    rw [amplitude_applyMatrix hq _ hbuf (Finset.mem_range.mp hi)]
  rw [normSq_eq_sum, size_applyMatrix, hbuf, Finset.sum_congr rfl hact, probabilityOfOne_eq_sum,
    hbuf]
  refine sum_eq_of_pairs hq fun i => ?_
  simp only [pairAct_eq, testBit_withBit_self, withBit_withBit, Bool.false_eq_true, if_true,
    if_false, zero_add]
  exact Matrix2.normSq_lowering _ _

/-- The ground state has the norm one. -/
theorem normSq_ground {size : Nat} (h : 0 < size) :
    (ground size : Buffer (Complex ℝ)).normSq = 1 := by
  have hlen : (Array.replicate size (0 : Complex ℝ)).size = size := Array.size_replicate
  -- Only the first amplitude is not zero.
  have hamp : ∀ i ∈ Finset.range size, ((ground size : Buffer (Complex ℝ)).amplitude i).normSq
      = if i = 0 then 1 else 0 := by
    intro i hi
    rw [ground, amplitude_setIfInBounds (by rwa [hlen])]
    by_cases hi0 : i = 0
    · rw [if_pos hi0, if_pos hi0, Complex.normSq_one]
    · have hlt : i < (Array.replicate size (0 : Complex ℝ)).size := by
        rw [hlen]
        exact Finset.mem_range.mp hi
      rw [if_neg hi0, if_neg hi0, amplitude_eq_getElem _ hlt, Array.getElem_replicate,
        Complex.normSq_zero]
  rw [normSq_eq_sum, ground, Array.size_setIfInBounds, hlen, ← ground, Finset.sum_congr rfl hamp,
    Finset.sum_ite_eq', if_pos (Finset.mem_range.mpr h)]

end Scaling

section States

/-- The amplitudes of a register of `n` qubits, with the norm one. -/
structure IsState (n : Nat) (s : Buffer (Complex ℝ)) : Prop where
  /-- There is an amplitude for each basis state. -/
  size : s.size = 2 ^ n
  /-- The squared absolute values add up to one. -/
  normSq : s.normSq = 1

theorem isState_ground {size : Nat} (h : size = 2 ^ n) :
    (ground size : Buffer (Complex ℝ)).IsState n :=
  ⟨(size_ground size).trans h, normSq_ground (h ▸ Nat.two_pow_pos n)⟩

/-- Isometric actions lead from states to states. -/
theorem IsState.apply (hs : s.IsState n) {a : GateAction (Complex ℝ)} (ha : a.Fits n)
    (hm : a.Isometric) : (a.apply s).IsState n :=
  ⟨(GateAction.size_apply a s).trans hs.size,
    (GateAction.normSq_apply ha hm hs.size).trans hs.normSq⟩

/-- So does a matrix with orthonormal columns on a qubit. -/
theorem IsState.applyMatrix (hs : s.IsState n) {q : Nat} (hq : q < n)
    {m : Matrix2 (Complex ℝ)} (hm : m.Isometry) : (s.applyMatrix q m).IsState n := by
  have hfits : (GateAction.matrix [] q m).Fits n :=
    ⟨List.nodup_singleton q, fun p hp => List.mem_singleton.mp hp ▸ hq, trivial⟩
  exact hs.apply hfits hm

/-- The outcome that was read has the probability that is divided by. -/
theorem IsState.collapse (hs : s.IsState n) (q : Nat) {outcome : Bool} {p : ℝ}
    (hp : Scalar.zeroNorm < p)
    (heq : p = if outcome = true then s.probabilityOfOne q
      else s.normSq - s.probabilityOfOne q) :
    (s.collapse q outcome p).IsState n := by
  have hpos : 0 < p := zeroNorm_pos.trans hp
  refine ⟨(size_collapse q outcome p).trans hs.size, ?_⟩
  rw [normSq_collapse q outcome hpos, ← heq, one_div, inv_mul_cancel₀ hpos.ne']

/-- A buffer whose norm does not count as zero can be made a state. -/
theorem isState_rescale (hsize : s.size = 2 ^ n) (h : Scalar.zeroNorm < s.normSq) :
    (s.rescale Scalar.zeroNorm).2.IsState n :=
  ⟨(size_rescale _).trans hsize, normSq_rescale h⟩

theorem IsState.zeroNorm_lt (hs : s.IsState n) : Scalar.zeroNorm < s.normSq := by
  rw [hs.normSq, Scalar.zeroNorm, Exact.ofNat_eq]
  norm_num

theorem IsState.rescale (hs : s.IsState n) : (s.rescale Scalar.zeroNorm).2.IsState n :=
  isState_rescale hs.size hs.zeroNorm_lt

/-- An excited qubit can decay, and what is left is divided by its norm. -/
theorem IsState.decay (hs : s.IsState n) {q : Nat} (hq : q < n)
    (h : Scalar.zeroNorm < s.probabilityOfOne q) :
    ((s.applyMatrix q Unitary.lowering).rescale Scalar.zeroNorm).2.IsState n := by
  refine isState_rescale ((size_applyMatrix q _).trans hs.size) ?_
  rwa [normSq_applyMatrix_lowering hq hs.size]

end States

end Buffer

end QubitLab
