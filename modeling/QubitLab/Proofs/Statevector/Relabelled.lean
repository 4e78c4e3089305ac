import QubitLab.Proofs.Circuit.Renamed
import QubitLab.Proofs.Gate.Action
import QubitLab.Proofs.Statevector.Sums

/-!
# Relabelled buffers

A permutation of the qubits permutes the bits of an index, and so the amplitudes of
a buffer. `relabelIndex` does this to an index: it is the offset of the group member
in which qubit `q` stands at the place of its label. Everything that the kernels do
to an index commutes with it, because it does so bit by bit, and hence so does every
action. This is where the two runs of a relabelled circuit are compared, and it is
one comparison per action only: in which order the kernels visit the groups, which
is not the same in the two runs, has been dealt with by `amplitude_apply`.

Sums over a relabelled buffer have the same summands in another order. That they
are equal is the only place where laws of addition are needed.

## Main definitions

* `Statevector.relabelIndex`: An index with its bits moved to their labels.
* `Buffer.Relabelled`: A buffer is another one, relabelled.

## Theorems

* `testBit_relabelIndex`: The bits of a relabelled index.
* `withBit_relabelIndex`, `exchange_relabelIndex`, `place_relabelIndex`,
  `gather_relabelIndex`: Operations on indices commute with relabelling.
* `act_relabelled`: So do actions.
* `Relabelled.apply`: An action keeps buffers relabelled.
* `Relabelled.normSq_eq`, `Relabelled.probabilityOfOne_eq`: The sums are the same.
-/

namespace QubitLab

namespace Statevector

open Circuit

/-- The index whose bit `mapping[q]` is bit `q` of `i`. -/
def relabelIndex (mapping : List Nat) (i : Nat) : Nat := groupOffset mapping i

section Indices

variable {n : Nat} {mapping : List Nat}

/-- The bit of a qubit is found at its label. -/
theorem testBit_relabelIndex (h : mapping.Perm (List.range n)) (i : Nat) {q : Nat}
    (hq : q < n) : (relabelIndex mapping i).testBit (label mapping q) = i.testBit q := by
  have hd : mapping.Nodup := h.nodup_iff.mpr List.nodup_range
  have hmem : label mapping q ∈ mapping :=
    h.mem_iff.mpr (List.mem_range.mpr ((renaming_label h).lt q hq))
  rw [relabelIndex, testBit_groupOffset hd, if_pos hmem]
  exact congrArg i.testBit (origin_label h hq)

/-- A relabelled index is inside of the register. -/
theorem relabelIndex_lt (h : mapping.Perm (List.range n)) (i : Nat) :
    relabelIndex mapping i < 2 ^ n := by
  refine lt_of_bits fun p hp => ?_
  rw [relabelIndex, testBit_groupOffset (h.nodup_iff.mpr List.nodup_range), if_neg fun hmem => ?_]
  have := List.mem_range.mp (h.mem_iff.mp hmem)
  omega

/-- An index is the relabelled one when it has its bits at the labels. -/
theorem eq_relabelIndex (h : mapping.Perm (List.range n)) {i j : Nat} (hj : j < 2 ^ n)
    (hbits : ∀ q, q < n → j.testBit (label mapping q) = i.testBit q) :
    j = relabelIndex mapping i := by
  refine eq_of_bits hj (relabelIndex_lt h i) fun p hp => ?_
  have hq := (renaming_origin h).lt p hp
  have hbit := hbits _ hq
  rw [← testBit_relabelIndex h i hq, label_origin h hp] at hbit
  exact hbit

/-- Different indices are relabelled differently. -/
theorem relabelIndex_inj (h : mapping.Perm (List.range n)) {i j : Nat} (hi : i < 2 ^ n)
    (hj : j < 2 ^ n) (heq : relabelIndex mapping i = relabelIndex mapping j) : i = j := by
  refine eq_of_bits hi hj fun q hq => ?_
  rw [← testBit_relabelIndex h i hq, heq, testBit_relabelIndex h j hq]

/-- Relabelling permutes the indices of a register. -/
theorem relabelIndex_perm (h : mapping.Perm (List.range n)) :
    ((List.range (2 ^ n)).map (relabelIndex mapping)).Perm (List.range (2 ^ n)) := by
  -- There are as many of them as there are indices, all are inside of the register, and none comes
  -- twice.
  refine perm_range_of_nodup (by rw [List.length_map, List.length_range]) ?_ ?_
  · intro j hj
    rcases List.mem_map.mp hj with ⟨i, -, rfl⟩
    exact relabelIndex_lt h i
  · rw [List.Nodup, List.pairwise_map]
    exact List.Pairwise.imp_of_mem (fun {i j} hi hj hne heq =>
      hne (relabelIndex_inj h (List.mem_range.mp hi) (List.mem_range.mp hj) heq))
      List.nodup_range

/-- Setting the bit of a label is setting the bit of the qubit. -/
theorem withBit_relabelIndex (h : mapping.Perm (List.range n)) (i : Nat) {q : Nat}
    (hq : q < n) (b : Bool) :
    withBit (relabelIndex mapping i) (label mapping q) b = relabelIndex mapping (withBit i q b) := by
  have hf := renaming_label h
  refine eq_relabelIndex h (withBit_lt (relabelIndex_lt h i) (hf.lt q hq) b) fun p hp => ?_
  rw [testBit_withBit, testBit_withBit, testBit_relabelIndex h i hp]
  by_cases hpq : p = q
  · rw [if_pos hpq, if_pos (congrArg _ hpq)]
  · rw [if_neg hpq, if_neg fun heq => hpq (hf.inj p q hp hq heq)]

/-- Exchanging two labels is exchanging their qubits. -/
theorem exchange_relabelIndex (h : mapping.Perm (List.range n)) (i : Nat) {a b : Nat}
    (ha : a < n) (hb : b < n) :
    exchange (label mapping a) (label mapping b) (relabelIndex mapping i)
      = relabelIndex mapping (exchange a b i) := by
  rw [exchange, testBit_relabelIndex h i hb, testBit_relabelIndex h i ha,
    withBit_relabelIndex h i ha, withBit_relabelIndex h _ hb, exchange]

/-- The relabelled controls are set where the controls are. -/
theorem all_testBit_relabelIndex (h : mapping.Perm (List.range n)) (i : Nat)
    {controls : List Nat} (hn : ∀ q ∈ controls, q < n) :
    (controls.map (label mapping)).all (relabelIndex mapping i).testBit
      = controls.all i.testBit := by
  rw [List.all_map, Bool.eq_iff_iff, List.all_eq_true, List.all_eq_true]
  refine forall_congr' fun q => imp_congr_right fun hq => ?_
  rw [Function.comp_apply, testBit_relabelIndex h i (hn q hq)]

/-- The same row is gathered at the labels. -/
theorem gather_relabelIndex (h : mapping.Perm (List.range n)) (i : Nat) {qubits : List Nat}
    (hn : ∀ q ∈ qubits, q < n) :
    gather (qubits.map (label mapping)) (relabelIndex mapping i) = gather qubits i := by
  induction qubits with
  | nil => rfl
  | cons q rest ih =>
      rw [List.map_cons, gather, gather, testBit_relabelIndex h i (hn q List.mem_cons_self),
        ih fun p hp => hn p (List.mem_cons_of_mem q hp)]

/-- A renamed qubit stands where the qubit stood. -/
theorem idxOf_map_label (h : mapping.Perm (List.range n)) {qubits : List Nat}
    (hn : ∀ q ∈ qubits, q < n) {p : Nat} (hp : p < n) :
    (qubits.map (label mapping)).idxOf (label mapping p) = qubits.idxOf p := by
  induction qubits with
  | nil => rfl
  | cons q rest ih =>
      have hrest := ih fun r hr => hn r (List.mem_cons_of_mem q hr)
      have hinj := (renaming_label h).inj q p (hn q List.mem_cons_self) hp
      by_cases hqp : q = p
      · rw [hqp, List.map_cons, List.idxOf_cons_self, List.idxOf_cons_self]
      · rw [List.map_cons, List.idxOf_cons, List.idxOf_cons, hrest,
          beq_false_of_ne fun heq => hqp (hinj heq), beq_false_of_ne hqp]

/-- The same member of the group is found at the labels. -/
theorem place_relabelIndex (h : mapping.Perm (List.range n)) {i : Nat} {qubits : List Nat}
    (hd : qubits.Nodup) (hn : ∀ q ∈ qubits, q < n) (r : Nat) :
    place (qubits.map (label mapping)) (relabelIndex mapping i) r
      = relabelIndex mapping (place qubits i r) := by
  have hf := renaming_label h
  have hd' := Gate.nodup_map_of_renaming hf hn hd
  have hn' : ∀ q ∈ qubits.map (label mapping), q < n := by
    intro q hq
    rcases List.mem_map.mp hq with ⟨p, hp, rfl⟩
    exact hf.lt p (hn p hp)
  refine eq_relabelIndex h (place_lt hd' (relabelIndex_lt h i) hn' r) fun p hp => ?_
  rw [testBit_place hd', testBit_place hd, testBit_relabelIndex h i hp]
  -- Inside the group the bits come from the row, and outside of it from the index.
  by_cases hmem : p ∈ qubits
  · rw [if_pos hmem, if_pos (List.mem_map_of_mem hmem), idxOf_map_label h hn hp]
  · rw [if_neg hmem, if_neg fun hmap => ?_]
    rcases List.mem_map.mp hmap with ⟨q, hq, heq⟩
    exact hmem (hf.inj q p (hn q hq) hp heq ▸ hq)

end Indices

end Statevector

section Actions

open Statevector Circuit

variable {K : Type} [Zero K] [Add K] [Mul K] {n : Nat} {mapping : List Nat}

omit [Zero K] [Add K] [Mul K] in
theorem Buffer.underControls_relabelled (h : mapping.Perm (List.range n))
    {controls : List Nat} (hc : ∀ q ∈ controls, q < n) {act act' : (Nat → K) → Nat → K}
    {ψ φ : Nat → K} {i : Nat} (hstay : φ (relabelIndex mapping i) = ψ i)
    (hact : act' φ (relabelIndex mapping i) = act ψ i) :
    underControls (controls.map (label mapping)) act' φ (relabelIndex mapping i)
      = underControls controls act ψ i := by
  rw [underControls, underControls, all_testBit_relabelIndex h i hc, hstay, hact]

/-- A relabelled action does to relabelled amplitudes what the action does. -/
theorem GateAction.act_relabelled (h : mapping.Perm (List.range n)) {a : GateAction K}
    (ha : a.Fits n) {ψ φ : Nat → K} (hφ : ∀ i, i < 2 ^ n → φ (relabelIndex mapping i) = ψ i)
    {i : Nat} (hi : i < 2 ^ n) :
    (a.mapQubits (label mapping)).act φ (relabelIndex mapping i) = a.act ψ i := by
  cases a with
  | matrix controls target m =>
      have ht := ha.target_lt
      refine Buffer.underControls_relabelled h
        (fun q hq => ha.2.1 q (List.mem_append_left [target] hq)) (hφ i hi) ?_
      -- The pair of the relabelled index is the relabelled pair, in the same order.
      have hpair : ∀ b, φ (withBit (relabelIndex mapping i) (label mapping target) b)
          = ψ (withBit i target b) := by
        intro b
        rw [withBit_relabelIndex h i ht, hφ _ (withBit_lt hi ht b)]
      unfold Buffer.pairAct
      rw [testBit_relabelIndex h i ht, hpair, hpair]
  | swap controls a b =>
      rcases ha.swap_lt with ⟨han, hbn⟩
      refine Buffer.underControls_relabelled h
        (fun q hq => ha.2.1 q (List.mem_append_left [a, b] hq)) (hφ i hi) ?_
      unfold Buffer.swapAct
      rw [exchange_relabelIndex h i han hbn, hφ _ (exchange_lt hi han hbn)]
  | dense qubits m =>
      have hd : qubits.Nodup := ha.1
      have hn : ∀ q ∈ qubits, q < n := ha.2.1
      change Buffer.denseAct (qubits.map (label mapping)) m φ (relabelIndex mapping i)
        = Buffer.denseAct qubits m ψ i
      unfold Buffer.denseAct
      -- The row is the same one, and so are the members of the group, in its order.
      rw [gather_relabelIndex h i hn, List.length_map]
      congr 1
      refine List.map_congr_left fun r _ => ?_
      rw [place_relabelIndex h hd hn r, hφ _ (place_lt hd hi hn r)]

end Actions

namespace Buffer

open Statevector Circuit

variable {K : Type} [Zero K] {n : Nat} {mapping : List Nat}

/-- The buffer `u` is the buffer `s` of a register of `n` qubits with the qubits
    relabelled: it holds at a relabelled index what `s` holds at the index. -/
structure Relabelled (n : Nat) (mapping : List Nat) (s u : Buffer K) : Prop where
  /-- The first buffer is over the register. -/
  size_left : s.size = 2 ^ n
  /-- The second buffer is over the register. -/
  size_right : u.size = 2 ^ n
  /-- The amplitudes are the same, up to the relabelling. -/
  amplitude : ∀ i, i < 2 ^ n → u.amplitude (relabelIndex mapping i) = s.amplitude i

section Updates

/-- An action on one buffer and the relabelled action on the other keep the two together. -/
theorem Relabelled.apply [Add K] [Mul K] (h : mapping.Perm (List.range n)) {s u : Buffer K}
    (hsu : Relabelled n mapping s u) {a : GateAction K} (ha : a.Fits n) :
    Relabelled n mapping (a.apply s) ((a.mapQubits (label mapping)).apply u) := by
  have ha' := GateAction.fits_mapQubits (renaming_label h) ha
  refine ⟨(a.size_apply s).trans hsu.size_left, (GateAction.size_apply _ u).trans hsu.size_right,
    fun i hi => ?_⟩
  rw [GateAction.amplitude_apply ha' hsu.size_right (relabelIndex_lt h i),
    GateAction.amplitude_apply ha hsu.size_left hi, GateAction.act_relabelled h ha hsu.amplitude hi]

/-- So do a matrix on a qubit and the same matrix on its label. -/
theorem Relabelled.applyMatrix [Add K] [Mul K] (h : mapping.Perm (List.range n))
    {s u : Buffer K} (hsu : Relabelled n mapping s u) {q : Nat} (hq : q < n) (m : Matrix2 K) :
    Relabelled n mapping (s.applyMatrix q m) (u.applyMatrix (label mapping q) m) := by
  have ha : (GateAction.matrix [] q m).Fits n := by
    refine ⟨List.pairwise_singleton _ q, fun p hp => ?_, trivial⟩
    rw [List.mem_singleton.mp hp]
    exact hq
  exact hsu.apply h ha

/-- What is done to each amplitude alone does not see the labels. -/
theorem Relabelled.map (h : mapping.Perm (List.range n)) {s u : Buffer K}
    (hsu : Relabelled n mapping s u) (f : K → K) :
    Relabelled n mapping (s.map f) (u.map f) := by
  refine ⟨by rw [Array.size_map, hsu.size_left], by rw [Array.size_map, hsu.size_right],
    fun i hi => ?_⟩
  have hi' := relabelIndex_lt h i
  have hsame := hsu.amplitude i hi
  rw [amplitude_eq_getElem _ (hsu.size_right ▸ hi'), amplitude_eq_getElem _ (hsu.size_left ▸ hi)]
    at hsame
  rw [amplitude_eq_getElem _ (by rw [Array.size_map, hsu.size_right]; exact hi'),
    amplitude_eq_getElem _ (by rw [Array.size_map, hsu.size_left]; exact hi), Array.getElem_map,
    Array.getElem_map, hsame]

end Updates

section Sums

variable {R : Type} [Scalar R] {s u : Buffer (Complex R)}

/-- The squared norm has the same summands in another order. -/
theorem Relabelled.normSq_eq (h : mapping.Perm (List.range n))
    (hsu : Relabelled n mapping s u) (hassoc : ∀ a b c : R, a + b + c = a + (b + c))
    (hcomm : ∀ a b : R, a + b = b + a) : u.normSq = s.normSq := by
  rw [normSq_eq_foldl, normSq_eq_foldl, hsu.size_left, hsu.size_right]
  refine foldl_range_perm (relabelIndex_perm h) (fun acc i j => ?_) (fun acc i hi => ?_) 0
  · rw [hassoc, hassoc, hcomm (u.amplitude i).normSq]
  · rw [hsu.amplitude i hi]

/-- So has the probability of one at a label. -/
theorem Relabelled.probabilityOfOne_eq (h : mapping.Perm (List.range n))
    (hsu : Relabelled n mapping s u) (hassoc : ∀ a b c : R, a + b + c = a + (b + c))
    (hcomm : ∀ a b : R, a + b = b + a) {q : Nat} (hq : q < n) :
    u.probabilityOfOne (label mapping q) = s.probabilityOfOne q := by
  rw [probabilityOfOne_eq_foldl, probabilityOfOne_eq_foldl, hsu.size_left, hsu.size_right]
  refine foldl_range_perm (relabelIndex_perm h) (fun acc i j => ?_) (fun acc i hi => ?_) 0
  · -- Two summands can be exchanged when both of them count, and also when one is passed over.
    by_cases hi : i.testBit (label mapping q) = true
    · by_cases hj : j.testBit (label mapping q) = true
      · rw [if_pos hi, if_pos hj, if_pos hi, if_pos hj, hassoc, hassoc,
          hcomm (u.amplitude i).normSq]
      · rw [if_pos hi, if_neg hj, if_neg hj, if_pos hi]
    · rw [if_neg hi, if_neg hi]
  · rw [testBit_relabelIndex h i hq, hsu.amplitude i hi]

/-- Both buffers are divided by the same norm, or neither is. -/
theorem Relabelled.rescale (h : mapping.Perm (List.range n))
    (hsu : Relabelled n mapping s u) (hassoc : ∀ a b c : R, a + b + c = a + (b + c))
    (hcomm : ∀ a b : R, a + b = b + a) (zeroNorm : R) :
    (u.rescale zeroNorm).1 = (s.rescale zeroNorm).1 ∧
      Relabelled n mapping (s.rescale zeroNorm).2 (u.rescale zeroNorm).2 := by
  have hnorm := hsu.normSq_eq h hassoc hcomm
  unfold Buffer.rescale
  rw [hnorm]
  by_cases hlt : Scalar.lt zeroNorm s.normSq = true
  · rw [if_pos hlt, if_pos hlt]
    exact ⟨rfl, hsu.map h _⟩
  · rw [if_neg hlt, if_neg hlt]
    exact ⟨rfl, hsu⟩

/-- Reading a qubit of the one buffer and its label in the other leaves the two relabelled. -/
theorem Relabelled.collapse (h : mapping.Perm (List.range n))
    (hsu : Relabelled n mapping s u) {q : Nat} (hq : q < n) (outcome : Bool) (probability : R) :
    Relabelled n mapping (s.collapse q outcome probability)
      (u.collapse (label mapping q) outcome probability) := by
  unfold Buffer.collapse
  refine ⟨by rw [Array.size_mapIdx, hsu.size_left], by rw [Array.size_mapIdx, hsu.size_right],
    fun i hi => ?_⟩
  have hi' := relabelIndex_lt h i
  have hsame := hsu.amplitude i hi
  rw [amplitude_eq_getElem _ (hsu.size_right ▸ hi'), amplitude_eq_getElem _ (hsu.size_left ▸ hi)]
    at hsame
  rw [amplitude_eq_getElem _ (by rw [Array.size_mapIdx, hsu.size_right]; exact hi'),
    amplitude_eq_getElem _ (by rw [Array.size_mapIdx, hsu.size_left]; exact hi),
    Array.getElem_mapIdx, Array.getElem_mapIdx, testBit_relabelIndex h i hq, hsame]

end Sums

end Buffer

end QubitLab
