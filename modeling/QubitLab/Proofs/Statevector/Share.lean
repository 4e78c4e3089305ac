import QubitLab.Proofs.Statevector.Norm

/-!
# Shares of the norm

The basis states in which some qubits have given bits hold a share of the squared norm.
For a single qubit this share is what the simulator computes when it reads the qubit, by
adding up or by subtracting from the whole. It is defined here as a sum over all basis
states that agree with what was read, whatever the order in which it was read, and `share_perm`
is the reason that the order of readings is of no account.

`Projects` says what is left of a buffer after readings: the amplitudes of the basis states
that agree, divided by the root of their share, and zeros elsewhere. Collapsing a buffer does
this for one reading, and `Projects.cons` puts a reading in front of others. The division by the
first share is what turns the share of the rest into a share of the whole, so the shares
multiply and their roots do so as well.

Readings of all qubits agree with a single basis state. Then the share is the weight of one
amplitude, and this is the only one that is left.

## Main definitions

* `Statevector.Agrees`: A basis state has the bits that were read.
* `Buffer.share`: The part of the squared norm that agrees with readings.
* `Buffer.outcomeShare`: The share of an outcome of one qubit, as a reading computes it.
* `Buffer.Projects`: What is left of a buffer after readings.

## Theorems

* `share_nil`, `share_single`, `share_perm`: The whole, one reading, and another order.
* `share_collapse`: What a collapse leaves of a share.
* `projects_collapse`, `Projects.cons`: One reading, and a reading before others.
* `Projects.isState`, `Projects.eq_of_perm`: The norm is one, and the result is unique.
* `agrees_range_iff`: The basis state of given bits.
* `share_range`, `Projects.ne_zero_iff`: All qubits at once.
-/

namespace QubitLab

namespace Statevector

/-- The basis state `i` has all the bits that were read. -/
def Agrees (readings : List (Nat × Bool)) (i : Nat) : Prop :=
  ∀ x ∈ readings, i.testBit x.1 = x.2

instance (readings : List (Nat × Bool)) (i : Nat) : Decidable (Agrees readings i) :=
  inferInstanceAs (Decidable (∀ x ∈ readings, i.testBit x.1 = x.2))

theorem agrees_nil (i : Nat) : Agrees [] i := fun _ hx => absurd hx List.not_mem_nil

theorem agrees_cons {q : Nat} {b : Bool} {rest : List (Nat × Bool)} {i : Nat} :
    Agrees ((q, b) :: rest) i ↔ i.testBit q = b ∧ Agrees rest i :=
  List.forall_mem_cons

theorem agrees_single {q : Nat} {b : Bool} {i : Nat} : Agrees [(q, b)] i ↔ i.testBit q = b :=
  List.forall_mem_singleton

theorem agrees_perm {a b : List (Nat × Bool)} (h : a.Perm b) (i : Nat) :
    Agrees a i ↔ Agrees b i :=
  ⟨fun ha x hx => ha x (h.mem_iff.mpr hx), fun hb x hx => hb x (h.mem_iff.mp hx)⟩

section AllQubits

/-- Readings of all qubits in order agree with one basis state. -/
theorem agrees_range_iff {n : Nat} {readings : List (Nat × Bool)}
    (hall : readings.map Prod.fst = List.range n) {i : Nat} (hi : i < 2 ^ n) :
    Agrees readings i ↔ i = basisIndex (readings.map Prod.snd) := by
  have hlength : readings.length = n := by
    rw [← List.length_map Prod.fst, hall, List.length_range]
  -- The reading at a position is that of the qubit of this number.
  have hget : ∀ k (hk : k < readings.length), readings[k].1 = k := by
    intro k hk
    have h := List.getElem_of_eq hall (by rw [List.length_map]; exact hk)
    rwa [List.getElem_map, List.getElem_range] at h
  have hbit : ∀ k (hk : k < readings.length),
      (basisIndex (readings.map Prod.snd)).testBit k = readings[k].2 := by
    intro k hk
    rw [testBit_basisIndex, List.getD_eq_getElem?_getD, List.getElem?_map,
      List.getElem?_eq_getElem hk, Option.map_some, Option.getD_some]
  constructor
  · intro h
    have hlt := basisIndex_lt (readings.map Prod.snd)
    rw [List.length_map, hlength] at hlt
    refine eq_of_bits hi hlt fun k hk => ?_
    have hk' : k < readings.length := hlength ▸ hk
    have hag := h readings[k] (List.getElem_mem hk')
    rw [hget k hk'] at hag
    rw [hag, hbit k hk']
  · rintro rfl x hx
    rcases List.getElem_of_mem hx with ⟨k, hk, rfl⟩
    rw [hget k hk, hbit k hk]

end AllQubits

end Statevector

theorem Complex.normSq_nonneg (z : Complex ℝ) : 0 ≤ z.normSq :=
  add_nonneg (mul_self_nonneg z.re) (mul_self_nonneg z.im)

open Statevector

namespace Buffer

variable {n : Nat} {s t u : Buffer (Complex ℝ)}

section Shares

/-- The part of the squared norm that the basis states hold that agree with the readings. -/
noncomputable def share (readings : List (Nat × Bool)) (s : Buffer (Complex ℝ)) : ℝ :=
  ∑ i ∈ Finset.range s.size, if Agrees readings i then (s.amplitude i).normSq else 0

/-- The share of an outcome as a reading computes it: a sum for one, and what is left of the
    norm for zero. -/
noncomputable def outcomeShare (q : Nat) (b : Bool) (s : Buffer (Complex ℝ)) : ℝ :=
  if b = true then s.probabilityOfOne q else s.normSq - s.probabilityOfOne q

/-- Shares are not negative. -/
theorem share_nonneg (readings : List (Nat × Bool)) (s : Buffer (Complex ℝ)) :
    0 ≤ s.share readings := by
  refine Finset.sum_nonneg fun i _ => ?_
  by_cases hi : Agrees readings i
  · rw [if_pos hi]
    exact Complex.normSq_nonneg _
  · rw [if_neg hi]

theorem share_nil (s : Buffer (Complex ℝ)) : s.share [] = s.normSq := by
  rw [share, normSq_eq_sum]
  exact Finset.sum_congr rfl fun i _ => if_pos (agrees_nil i)

/-- The two ways to compute the share of an outcome are the same sum. -/
theorem share_single (q : Nat) (b : Bool) (s : Buffer (Complex ℝ)) :
    s.share [(q, b)] = s.outcomeShare q b := by
  rw [share, outcomeShare, ← sum_of_outcome]
  simp only [agrees_single]

theorem share_perm {a b : List (Nat × Bool)} (h : a.Perm b) (s : Buffer (Complex ℝ)) :
    s.share a = s.share b := by
  simp only [share, agrees_perm h]

/-- What a collapse leaves of the share of other readings: the part that agrees with the
    outcome as well, divided by what is divided by. -/
theorem share_collapse (q : Nat) (b : Bool) {p : ℝ} (hp : 0 < p) (rest : List (Nat × Bool))
    (s : Buffer (Complex ℝ)) :
    (s.collapse q b p).share rest = 1 / p * s.share ((q, b) :: rest) := by
  rw [share, share, size_collapse, Finset.mul_sum]
  refine Finset.sum_congr rfl fun i hi => ?_
  rw [amplitude_collapse q b p (Finset.mem_range.mp hi)]
  -- An index counts if it agrees with the other readings and, after the collapse, with the outcome.
  by_cases hrest : Agrees rest i
  · by_cases hbit : i.testBit q = b
    · rw [if_pos hrest, if_pos hbit, if_pos (agrees_cons.mpr ⟨hbit, hrest⟩), Complex.normSq_scale,
        inv_sqrt_mul_self hp]
    · rw [if_pos hrest, if_neg hbit, if_neg fun h => hbit (agrees_cons.mp h).1,
        Complex.normSq_zero, mul_zero]
  · rw [if_neg hrest, if_neg fun h => hrest (agrees_cons.mp h).2, mul_zero]

end Shares

section Projections

/-- The buffer `t` is what readings leave of `s`: amplitudes that disagree are gone, and the
    others are divided by the root of their share. -/
structure Projects (readings : List (Nat × Bool)) (s t : Buffer (Complex ℝ)) : Prop where
  /-- There are as many amplitudes as before. -/
  size : t.size = s.size
  /-- What disagrees is gone. -/
  gone : ∀ i, i < s.size → ¬ Agrees readings i → t.amplitude i = 0
  /-- What agrees is divided by the root of the share. -/
  kept : ∀ i, i < s.size → Agrees readings i →
    t.amplitude i = ⟨(s.amplitude i).re / √(s.share readings),
      (s.amplitude i).im / √(s.share readings)⟩

theorem projects_nil (hs : s.normSq = 1) : Projects [] s s := by
  refine ⟨rfl, fun i _ hi => absurd (agrees_nil i) hi, fun i _ _ => ?_⟩
  rw [share_nil, hs, Real.sqrt_one, div_one, div_one]

/-- A collapse by the share of the outcome. -/
theorem projects_collapse (q : Nat) (b : Bool) (s : Buffer (Complex ℝ)) :
    Projects [(q, b)] s (s.collapse q b (s.outcomeShare q b)) := by
  refine ⟨size_collapse q b _, fun i hi hbit => ?_, fun i hi hbit => ?_⟩
  · rw [agrees_single] at hbit
    rw [amplitude_collapse q b _ hi, if_neg hbit]
  · rw [agrees_single] at hbit
    rw [amplitude_collapse q b _ hi, if_pos hbit, share_single, Complex.scale, Exact.sqrt_eq,
      mul_one_div, mul_one_div]

/-- The norm of what is left is one. -/
theorem Projects.normSq {readings : List (Nat × Bool)} (h : Projects readings s t)
    (hpos : 0 < s.share readings) : t.normSq = 1 := by
  -- Each amplitude that is left has its part of the share.
  have hterm : ∀ i ∈ Finset.range s.size, (t.amplitude i).normSq
      = 1 / s.share readings * if Agrees readings i then (s.amplitude i).normSq else 0 := by
    intro i hi
    have hlt := Finset.mem_range.mp hi
    by_cases hag : Agrees readings i
    · rw [if_pos hag, h.kept i hlt hag]
      change _ / _ * (_ / _) + _ / _ * (_ / _) = _ * (_ * _ + _ * _)
      rw [div_mul_div_comm, div_mul_div_comm, Real.mul_self_sqrt hpos.le, ← add_div,
        one_div_mul_eq_div]
    · rw [if_neg hag, h.gone i hlt hag, Complex.normSq_zero, mul_zero]
  have hsum : t.normSq = 1 / s.share readings * s.share readings := by
    rw [normSq_eq_sum, h.size, Finset.sum_congr rfl hterm, ← Finset.mul_sum]
    rfl
  rw [hsum, one_div, inv_mul_cancel₀ hpos.ne']

/-- Readings of a positive share leave a state. -/
theorem Projects.isState {readings : List (Nat × Bool)} (h : Projects readings s t)
    (hsize : s.size = 2 ^ n) (hpos : 0 < s.share readings) : t.IsState n :=
  ⟨h.size.trans hsize, h.normSq hpos⟩

/-- A reading in front of others: what the others leave of the collapsed buffer is what all
    of them leave of the buffer before it. -/
theorem Projects.cons {q : Nat} {b : Bool} {rest : List (Nat × Bool)}
    (hpos : 0 < s.outcomeShare q b)
    (h : Projects rest (s.collapse q b (s.outcomeShare q b)) u) :
    Projects ((q, b) :: rest) s u := by
  have hsize := size_collapse (s := s) q b (s.outcomeShare q b)
  have hfirst := projects_collapse q b s
  -- The shares multiply, and so do their roots.
  have hroots : √(s.outcomeShare q b)
      * √((s.collapse q b (s.outcomeShare q b)).share rest) = √(s.share ((q, b) :: rest)) := by
    rw [← Real.sqrt_mul hpos.le, share_collapse q b hpos, ← mul_assoc, mul_one_div_cancel hpos.ne',
      one_mul]
  refine ⟨h.size.trans hsize, fun i hi hdis => ?_, fun i hi hag => ?_⟩
  · by_cases hrest : Agrees rest i
    · -- The reading itself disagrees, and what is zero stays zero.
      have hbit : ¬ Agrees [(q, b)] i := fun hq =>
        hdis (agrees_cons.mpr ⟨agrees_single.mp hq, hrest⟩)
      rw [h.kept i (hsize ▸ hi) hrest, hfirst.gone i hi hbit, Complex.zero_re, Complex.zero_im,
        zero_div]
      rfl
    · exact h.gone i (hsize ▸ hi) hrest
  · rcases agrees_cons.mp hag with ⟨hbit, hrest⟩
    rw [h.kept i (hsize ▸ hi) hrest, hfirst.kept i hi (agrees_single.mpr hbit), share_single,
      div_div, div_div, hroots]

/-- What is left does not depend on the order of the readings. -/
theorem Projects.eq_of_perm {a b : List (Nat × Bool)} (hab : a.Perm b) (ht : Projects a s t)
    (hu : Projects b s u) : t = u := by
  refine ext_amplitude (ht.size.trans hu.size.symm) fun i hi => ?_
  have hlt : i < s.size := ht.size ▸ hi
  -- Both buffers are told by whether the index agrees.
  by_cases hag : Agrees a i
  · rw [ht.kept i hlt hag, hu.kept i hlt ((agrees_perm hab i).mp hag), share_perm hab]
  · rw [ht.gone i hlt hag, hu.gone i hlt fun h => hag ((agrees_perm hab i).mpr h)]

end Projections

section AllQubits

/-- The share of readings of all qubits is the weight of one amplitude. -/
theorem share_range {readings : List (Nat × Bool)} (hall : readings.map Prod.fst = List.range n)
    (hsize : s.size = 2 ^ n) :
    s.share readings = (s.amplitude (basisIndex (readings.map Prod.snd))).normSq := by
  have hlt := basisIndex_lt (readings.map Prod.snd)
  rw [List.length_map, ← List.length_map Prod.fst, hall, List.length_range, ← hsize] at hlt
  -- Of all indices, the one of the bits agrees.
  have hpick : s.share readings = ∑ i ∈ Finset.range s.size,
      if i = basisIndex (readings.map Prod.snd) then (s.amplitude i).normSq else 0 := by
    rw [share]
    refine Finset.sum_congr rfl fun i hi => ?_
    exact if_congr (agrees_range_iff hall (hsize ▸ Finset.mem_range.mp hi)) rfl rfl
  rw [hpick, Finset.sum_ite_eq', if_pos (Finset.mem_range.mpr hlt)]

/-- Readings of all qubits leave one amplitude. -/
theorem Projects.ne_zero_iff {readings : List (Nat × Bool)} (h : Projects readings s t)
    (hsize : s.size = 2 ^ n) (hpos : 0 < s.share readings)
    (hall : readings.map Prod.fst = List.range n) {i : Nat} (hi : i < 2 ^ n) :
    t.amplitude i ≠ 0 ↔ i = basisIndex (readings.map Prod.snd) := by
  rw [← agrees_range_iff hall hi]
  constructor
  · exact fun hne => by_contra fun hdis => hne (h.gone i (hsize ▸ hi) hdis)
  · intro hag hzero
    have hone := h.normSq hpos
    -- The norm would be a sum of zeros.
    rw [normSq_eq_sum, h.size, Finset.sum_eq_zero] at hone
    · exact zero_ne_one hone
    · intro j hj
      have hlt := Finset.mem_range.mp hj
      by_cases hj' : Agrees readings j
      · rw [(agrees_range_iff hall (hsize ▸ hlt)).mp hj', ← (agrees_range_iff hall hi).mp hag, hzero,
          Complex.normSq_zero]
      · rw [h.gone j hlt hj', Complex.normSq_zero]

end AllQubits

end Buffer

end QubitLab
