import QubitLab.Proofs.Statevector.Walk

/-!
# Updates, amplitude by amplitude

A kernel walks over the groups of a buffer and overwrites each of them in place.
What it computes is simpler to say: the new amplitude at an index is a function of
the old amplitudes in the same group. `GateAction.act` is this function, for every
way in which a gate can act, and `amplitude_apply` says that the kernels compute
it. All later statements about what gates do are statements about `act`.

The kernels differ only in what they do to a single group. What a walk makes of that is
`amplitude_walk`.

No law of arithmetic is used, and no sum is reordered.

## Main definitions

* `Buffer.pairAct`: What a two by two matrix does, amplitude by amplitude.
* `GateAction.act`: What an action does, amplitude by amplitude.
* `GateAction.Fits`: The qubits of an action are distinct and inside a register.

## Theorems

* `amplitude_onPair`, `amplitude_onGroup`, `amplitude_exchangePair`: A single group.
* `controlled_eq_walk`, `swap_eq_walk`, `dense_eq_walk`: The kernels as walks.
* `amplitude_apply`: The kernels compute what actions do.
-/

namespace QubitLab

variable {K : Type} [Zero K] [Add K] [Mul K]

namespace Buffer

open Statevector

section Masks

/-- The mask has the bits of its qubits. -/
theorem testBit_qubitMask (qubits : List Nat) (p : Nat) :
    (qubitMask qubits).testBit p = decide (p ∈ qubits) := by
  have hfold : ∀ mask, (qubits.foldl (fun acc q => acc ||| (1 <<< q)) mask).testBit p
      = (mask.testBit p || decide (p ∈ qubits)) := by
    induction qubits with
    | nil =>
        intro mask
        rw [List.foldl_nil, decide_eq_false List.not_mem_nil, Bool.or_false]
    | cons q rest ih =>
        intro mask
        rw [List.foldl_cons, ih, Nat.testBit_or, testBit_one_shiftLeft, Bool.or_assoc]
        congr 1
        simp only [List.mem_cons, Bool.decide_or]
  rw [qubitMask, hfold, Nat.zero_testBit, Bool.false_or]

/-- A mask of qubits is covered by the indices in which all of them are set. -/
theorem covers_qubitMask (qubits : List Nat) (i : Nat) :
    covers i (qubitMask qubits) = qubits.all i.testBit := by
  rw [Bool.eq_iff_iff, covers, beq_iff_eq, List.all_eq_true]
  constructor
  · intro h q hq
    have hbit := congrArg (fun k => k.testBit q) h
    simp only [Nat.testBit_and, testBit_qubitMask, decide_eq_true hq, Bool.and_true] at hbit
    exact hbit
  · intro h
    refine Nat.eq_of_testBit_eq fun p => ?_
    rw [Nat.testBit_and, testBit_qubitMask]
    by_cases hp : p ∈ qubits
    · rw [decide_eq_true hp, h p hp, Bool.and_true]
    · rw [decide_eq_false hp, Bool.and_false]

/-- Qubits outside a group have the same bits throughout the group. -/
theorem all_testBit_of_clear {sorted controls : List Nat} {i j : Nat}
    (h : clear sorted i = clear sorted j) (hc : ∀ q ∈ controls, q ∉ sorted) :
    controls.all i.testBit = controls.all j.testBit := by
  rw [Bool.eq_iff_iff, List.all_eq_true, List.all_eq_true]
  have hbits := clear_eq_clear.mp h
  exact forall_congr' fun q => imp_congr_right fun hq => by rw [hbits q (hc q hq)]

end Masks

section OneGroup

variable {n : Nat}

/-- What a two by two matrix on a qubit does to the amplitudes `ψ`: row `b` of the
    matrix, where `b` is the bit of the qubit, against the two members of the pair. -/
def pairAct (target : Nat) (m : Matrix2 K) (ψ : Nat → K) (i : Nat) : K :=
  let zero := ψ (withBit i target false)
  let one := ψ (withBit i target true)
  if i.testBit target then m.m10 * zero + m.m11 * one else m.m00 * zero + m.m01 * one

/-- The two members of a pair are taken through the matrix, and every other amplitude stays. -/
theorem amplitude_onPair {target : Nat} (ht : target < n) (m : Matrix2 K) {s : Buffer K}
    (hbuf : s.size = 2 ^ n) {base : Nat} (hbase : base < 2 ^ n)
    (hclear : clear [target] base = base) (i : Nat) :
    ((Kernel.onPair m base (base ||| (1 <<< target))).after s).amplitude i
      = if clear [target] i = base then pairAct target m s.amplitude i else s.amplitude i := by
  have hzero : withBit base target false = base := hclear
  have hpartner : withBit base target true < s.size := hbuf ▸ withBit_lt hbase ht true
  have hlt : base < (s.setIfInBounds base
      (m.m00 * s.amplitude base + m.m01 * s.amplitude (withBit base target true))).size := by
    rw [Array.size_setIfInBounds, hbuf]
    exact hbase
  rw [or_one_shiftLeft]
  change amplitude ((s.setIfInBounds base _).setIfInBounds (withBit base target true) _) i = _
  rw [amplitude_setIfInBounds (by rw [Array.size_setIfInBounds]; exact hpartner),
    amplitude_setIfInBounds (hbuf ▸ hbase)]
  by_cases hi : withBit i target false = base
  · -- The index is one of the pair: which one, its bit says.
    have hone : withBit i target true = withBit base target true := by
      rw [← hi, withBit_withBit]
    rw [if_pos (show clear [target] i = base from hi), pairAct, hi, hone]
    cases hbit : i.testBit target with
    | true =>
        have hself : i = withBit base target true := by
          rw [← hone, withBit_of_testBit hbit]
        rw [if_pos hself, if_pos rfl]
    | false =>
        have hself : i = base := by rw [← hi, withBit_of_testBit hbit]
        have hne : i ≠ withBit base target true := by
          intro h
          rw [h, testBit_withBit_self] at hbit
          exact absurd hbit (by simp only [Bool.true_eq_false, not_false_eq_true])
        rw [if_neg hne, if_pos hself, if_neg (by simp only [Bool.false_eq_true, not_false_eq_true])]
  · -- Both places that are written belong to the pair, and the index does not.
    have hne : i ≠ base := fun h => hi (h ▸ hzero)
    have hne' : i ≠ withBit base target true := by
      intro h
      refine hi ?_
      rw [h, withBit_withBit, hzero]
    rw [if_neg (show ¬ clear [target] i = base from hi), if_neg hne', if_neg hne]

omit [Zero K] [Add K] [Mul K] in
/-- Where exactly the first of two qubits is set, and what the exchange makes of it. -/
theorem exchange_of_clear {a b base i : Nat} (hi : clear [a, b] i = base)
    (ha : i.testBit a = true) (hb : i.testBit b = false) :
    i = withBit base a true ∧ exchange a b i = withBit base b true := by
  have hself : i = withBit base a true := by
    refine Nat.eq_of_testBit_eq fun p => ?_
    rw [testBit_withBit, ← hi, testBit_clear]
    by_cases hpa : p = a
    · rw [if_pos hpa, hpa, ha]
    · rw [if_neg hpa]
      by_cases hp : p ∈ [a, b]
      · have hpb : p = b := List.mem_singleton.mp ((List.mem_cons.mp hp).resolve_left hpa)
        rw [if_pos hp, hpb, hb]
      · rw [if_neg hp]
  have hbase : withBit base a false = base := by
    refine withBit_of_testBit ?_
    rw [← hi, testBit_clear, if_pos List.mem_cons_self]
  refine ⟨hself, ?_⟩
  rw [exchange, ha, hb, hself, withBit_withBit, hbase]

omit [Add K] [Mul K] in
/-- In a group of two qubits, the members at which the qubits differ change places. -/
theorem amplitude_exchangePair {a b : Nat} (hab : a ≠ b) (ha : a < n) (hb : b < n) {s : Buffer K}
    (hbuf : s.size = 2 ^ n) {base : Nat} (hbase : base < 2 ^ n)
    (hclear : clear [a, b] base = base) (i : Nat) :
    ((Kernel.exchange (base ||| (1 <<< a)) (base ||| (1 <<< b))).after s).amplitude i
      = if clear [a, b] i = base then s.amplitude (exchange a b i) else s.amplitude i := by
  have hempty : ∀ p ∈ [a, b], base.testBit p = false := by
    intro p hp
    rw [← hclear, testBit_clear, if_pos hp]
  have hmem_b : b ∈ [a, b] := List.mem_cons_of_mem a List.mem_cons_self
  rw [or_one_shiftLeft, or_one_shiftLeft, amplitude_exchange
    (hbuf ▸ withBit_lt hbase ha true) (hbuf ▸ withBit_lt hbase hb true)]
  -- The first written index has bit `b` empty, and the second one bit `a`.
  have hne_a : i.testBit b = true → i ≠ withBit base a true := by
    intro hi h
    rw [h, testBit_withBit_ne hab.symm, hempty b hmem_b] at hi
    exact absurd hi (by simp only [Bool.false_eq_true, not_false_eq_true])
  have hne_b : i.testBit a = true → i ≠ withBit base b true := by
    intro hi h
    rw [h, testBit_withBit_ne hab, hempty a List.mem_cons_self] at hi
    exact absurd hi (by simp only [Bool.false_eq_true, not_false_eq_true])
  by_cases hi : clear [a, b] i = base
  · rw [if_pos hi]
    -- The bits of the two qubits say which of the four members the index is.
    cases hia : i.testBit a with
    | true =>
        cases hib : i.testBit b with
        | true =>
            rw [if_neg (hne_a hib), if_neg (hne_b hia),
              exchange_of_testBit_eq (hia.trans hib.symm)]
        | false =>
            rcases exchange_of_clear hi hia hib with ⟨hself, hother⟩
            rw [if_pos hself, hother]
    | false =>
        have hfar : i ≠ withBit base a true :=
          ne_withBit (by rw [hia]; exact Bool.false_ne_true) base
        cases hib : i.testBit b with
        | true =>
            -- The same as before with the two qubits in the other order.
            have hi' : clear [b, a] i = base := by
              rw [← hi]
              exact clear_congr (fun q => (List.Perm.swap a b []).mem_iff) i
            rcases exchange_of_clear hi' hib hia with ⟨hself, hother⟩
            rw [if_neg hfar, if_pos hself, exchange_comm hab, hother]
        | false =>
            rw [if_neg hfar, if_neg (ne_withBit (by rw [hib]; exact Bool.false_ne_true) base),
              exchange_of_testBit_eq (hia.trans hib.symm)]
  · -- Both indices that are written belong to the group.
    have hmember : ∀ p ∈ [a, b], clear [a, b] (withBit base p true) = base := by
      intro p hp
      rw [← hclear, clear_eq_clear]
      intro q hq
      have hne : q ≠ p := fun h => hq (h ▸ hp)
      rw [testBit_withBit_ne hne, hclear]
    have hne_left : i ≠ withBit base a true := fun h =>
      hi (h ▸ hmember a List.mem_cons_self)
    have hne_right : i ≠ withBit base b true := fun h => hi (h ▸ hmember b hmem_b)
    rw [if_neg hi, if_neg hne_left, if_neg hne_right]

/-- What a matrix over several qubits does to the amplitudes `ψ`: row `r` of the matrix,
    where `r` is made up of the bits of the qubits, against the members of the group. -/
def denseAct (qubits : List Nat) (m : Rows K) (ψ : Nat → K) (i : Nat) : K :=
  Rows.dot (m.getD (gather qubits i) [])
    ((List.range (1 <<< qubits.length)).map fun r => ψ (place qubits i r))

omit [Zero K] [Add K] [Mul K] in
/-- Different rows of the matrix belong to different members of a group. -/
theorem groupOffsets_nodup {qubits : List Nat} (hd : qubits.Nodup) :
    (groupOffsets qubits).Nodup := by
  rw [groupOffsets, List.Nodup, List.pairwise_map]
  refine List.Pairwise.imp_of_mem (fun {r r'} hr hr' hne heq => hne ?_) List.nodup_range
  rw [List.mem_range, Nat.one_shiftLeft] at hr hr'
  have hplace : place qubits 0 r = place qubits 0 r' := by rw [place, place, heq]
  rw [← gather_place hd 0 hr, hplace, gather_place hd 0 hr']

/-- All members of a group are read before any of them is written. -/
theorem after_onGroup (m : Rows K) (offsets : List Nat) (base : Nat) (s : Buffer K) :
    (Kernel.onGroup m offsets base).after s
      = (m.zip offsets).foldl (fun u p => u.setIfInBounds (base + p.2)
          (Rows.dot p.1 (offsets.map fun offset => s.amplitude (base + offset)))) s := by
  unfold Kernel.onGroup Kernel.after
  rw [Kernel.run_bind, Kernel.run_getAll, List.map_map]
  exact Kernel.after_forM _ _ s

/-- The members of a group are taken through the rows of the matrix, and every other amplitude
    stays. -/
theorem amplitude_onGroup {qubits : List Nat} (hd : qubits.Nodup)
    (hn : ∀ q ∈ qubits, q < n) {m : Rows K} (hm : m.length = 2 ^ qubits.length)
    {s : Buffer K} (hbuf : s.size = 2 ^ n) {base : Nat} (hbase : base < 2 ^ n)
    (hclear : clear qubits base = base) (i : Nat) :
    ((Kernel.onGroup m (groupOffsets qubits) base).after s).amplitude i
      = if clear qubits i = base then denseAct qubits m s.amplitude i else s.amplitude i := by
  have hlen : (groupOffsets qubits).length = m.length := by
    rw [groupOffsets, List.length_map, List.length_range, Nat.one_shiftLeft, hm]
  have hsum : ∀ r, base + groupOffset qubits r = place qubits base r := by
    intro r
    rw [place, hclear]
  have hpair : ∀ p ∈ m.zip (groupOffsets qubits), ∃ r, p.2 = groupOffset qubits r := by
    intro p hp
    rcases List.mem_map.mp (List.of_mem_zip hp).2 with ⟨r, -, hr⟩
    exact ⟨r, hr.symm⟩
  have hin : ∀ p ∈ m.zip (groupOffsets qubits), base + p.2 < s.size := by
    intro p hp
    rcases hpair p hp with ⟨r, hr⟩
    rw [hr, hsum, hbuf]
    exact place_lt hd hbase hn r
  by_cases hi : clear qubits i = base
  · rw [if_pos hi]
    -- The index is the member that its own bits say, and is written with the row of this number.
    have hself : i = base + groupOffset qubits (gather qubits i) := by
      rw [← hi]
      exact (place_gather hd i).symm
    have hlt : gather qubits i < m.length := hm ▸ gather_lt qubits i
    have hmem : (m.getD (gather qubits i) [], groupOffset qubits (gather qubits i))
        ∈ m.zip (groupOffsets qubits) := by
      refine List.mem_iff_getElem?.mpr ⟨gather qubits i, ?_⟩
      rw [List.getElem?_zip_eq_some]
      refine ⟨by rw [List.getD_eq_getElem?_getD, List.getElem?_eq_getElem hlt]; rfl, ?_⟩
      rw [groupOffsets, List.getElem?_map, List.getElem?_range (by
        rw [Nat.one_shiftLeft, ← hm]; exact hlt)]
      rfl
    have hnodup : ((m.zip (groupOffsets qubits)).map Prod.snd).Nodup := by
      rw [List.map_snd_zip (Nat.le_of_eq hlen)]
      exact groupOffsets_nodup hd
    have hold : (groupOffsets qubits).map (fun offset => s.amplitude (base + offset))
        = (List.range (1 <<< qubits.length)).map fun r => s.amplitude (place qubits i r) := by
      rw [groupOffsets, List.map_map]
      refine List.map_congr_left fun r _ => ?_
      rw [Function.comp_apply, place, hi]
    rw [after_onGroup, denseAct, ← hold]
    conv => lhs; rw [hself]
    exact amplitude_writes_self (fun row => Rows.dot row _) hin hnodup hmem
  · rw [if_neg hi, after_onGroup]
    -- What is written belongs to the group, and the index does not.
    refine amplitude_writes_other (fun row => Rows.dot row _) hin fun p hp h => hi ?_
    rcases hpair p hp with ⟨r, hr⟩
    rw [← h, hr, hsum, clear_place hd, hclear]

end OneGroup

section Kernels

variable {n : Nat}

/-- What exchanging two qubits does to the amplitudes `ψ`. -/
def swapAct (a b : Nat) (ψ : Nat → K) (i : Nat) : K := ψ (exchange a b i)

/-- What is done where all controls are set, and nothing elsewhere. -/
def underControls (controls : List Nat) (act : (Nat → K) → Nat → K) (ψ : Nat → K) (i : Nat) : K :=
  if controls.all i.testBit then act ψ i else ψ i

omit [Zero K] [Add K] [Mul K] in
/-- The controls are tested at the least index of a group, and say the same of all of it. -/
theorem covers_clear {sorted controls : List Nat} (hc : ∀ q ∈ controls, q ∉ sorted) (i : Nat) :
    covers (clear sorted i) (qubitMask controls) = controls.all i.testBit := by
  rw [covers_qubitMask, all_testBit_of_clear (clear_clear sorted i) hc]

omit [Zero K] in
/-- The pairs of a qubit are its groups. -/
theorem controlled_eq_walk (size : Nat) (controls : List Nat) (target : Nat) (m : Matrix2 K) :
    Kernel.controlled size controls target m
      = Kernel.walk [target] (fun base => covers base (qubitMask controls))
          (fun base => Kernel.onPair m base (base ||| (1 <<< target)))
          (size >>> [target].length) := rfl

/-- The pairs in which all controls are set are taken through the matrix, and all others stay. -/
theorem amplitude_applyControlled {controls : List Nat} {target : Nat}
    (hc : target ∉ controls) (ht : target < n) (m : Matrix2 K) {s : Buffer K}
    (hbuf : s.size = 2 ^ n) {i : Nat} (hi : i < 2 ^ n) :
    (s.applyControlled controls target m).amplitude i
      = underControls controls (pairAct target m) s.amplitude i := by
  have hout : ∀ q ∈ controls, q ∉ [target] := fun q hq h => hc (List.mem_singleton.mp h ▸ hq)
  rw [applyControlled, controlled_eq_walk, Kernel.amplitude_walk (pairAct target m)
    (List.pairwise_singleton _ _) (List.forall_mem_singleton.mpr ht)
    (fun base s hs hbase hclear i _ => amplitude_onPair ht m hs hbase hclear i)
    (fun ψ φ i hi hψ => ?_) hbuf hi, covers_clear hout]
  · rfl
  · -- The new amplitude depends on the two members of the pair only.
    have hpair : ∀ b, ψ (withBit i target b) = φ (withBit i target b) := fun b =>
      hψ _ (withBit_lt hi ht b) (withBit_withBit i target b false)
    unfold pairAct
    rw [hpair, hpair]

omit [Zero K] in
/-- Without controls every pair is taken through the matrix. -/
theorem controlled_nil (size target : Nat) (m : Matrix2 K) :
    Kernel.controlled size [] target m = Kernel.matrix size target m := by
  have hcov : ∀ i, covers i (qubitMask []) = true := fun i => covers_qubitMask [] i
  unfold Kernel.controlled Kernel.matrix
  simp only [hcov, if_true]

theorem applyControlled_nil (target : Nat) (m : Matrix2 K) (s : Buffer K) :
    s.applyControlled [] target m = s.applyMatrix target m := by
  rw [applyControlled, applyMatrix, controlled_nil]

/-- Every pair is taken through the matrix. -/
theorem amplitude_applyMatrix {target : Nat} (ht : target < n) (m : Matrix2 K) {s : Buffer K}
    (hbuf : s.size = 2 ^ n) {i : Nat} (hi : i < 2 ^ n) :
    (s.applyMatrix target m).amplitude i = pairAct target m s.amplitude i := by
  rw [← applyControlled_nil, amplitude_applyControlled List.not_mem_nil ht m hbuf hi]
  rfl

omit [Zero K] [Add K] [Mul K] in
/-- The groups of two qubits are visited where all controls are set. -/
theorem swap_eq_walk (size : Nat) (controls : List Nat) (a b : Nat) :
    (Kernel.swap size controls a b : Kernel K Unit)
      = Kernel.walk [a, b].mergeSort (fun base => covers base (qubitMask controls))
          (fun base => Kernel.exchange (base ||| (1 <<< a)) (base ||| (1 <<< b)))
          (size >>> [a, b].mergeSort.length) := by
  rw [length_mergeSort_eq]
  rfl

omit [Add K] [Mul K] in
/-- Each amplitude comes from where the two qubits have changed places, if all controls are set. -/
theorem amplitude_applySwap {controls : List Nat} {a b : Nat} (hab : a ≠ b)
    (ha : a ∉ controls) (hb : b ∉ controls) (han : a < n) (hbn : b < n) {s : Buffer K}
    (hbuf : s.size = 2 ^ n) {i : Nat} (hi : i < 2 ^ n) :
    (s.applySwap controls a b).amplitude i
      = underControls controls (swapAct a b) s.amplitude i := by
  have hsort : ∀ j, clear [a, b].mergeSort j = clear [a, b] j :=
    clear_congr fun q => mem_mergeSort_iff
  have hd : [a, b].Nodup :=
    List.nodup_cons.mpr ⟨fun h => hab (List.mem_singleton.mp h), List.pairwise_singleton _ b⟩
  have hn : ∀ q ∈ [a, b], q < n := by
    intro q hq
    rcases List.mem_cons.mp hq with rfl | hq
    · exact han
    · exact (List.mem_singleton.mp hq).symm ▸ hbn
  have hout : ∀ q ∈ controls, q ∉ [a, b].mergeSort := by
    intro q hq hmem
    rcases List.mem_cons.mp (mem_mergeSort_iff.mp hmem) with rfl | hmem
    · exact ha hq
    · exact hb (List.mem_singleton.mp hmem ▸ hq)
  rw [applySwap, swap_eq_walk, Kernel.amplitude_walk (swapAct a b) (pairwise_mergeSort hd)
    (fun q hq => hn q (mem_mergeSort_iff.mp hq)) (fun base s hs hbase hclear i _ => ?_)
    (fun ψ φ i hi hψ => ?_) hbuf hi, covers_clear hout]
  · rfl
  · rw [hsort] at hclear ⊢
    exact amplitude_exchangePair hab han hbn hs hbase hclear i
  · -- An exchange stays inside of the group.
    refine hψ _ (exchange_lt hi han hbn) ?_
    rw [hsort, hsort, clear_eq_clear]
    intro p hp
    have hpa : p ≠ a := fun h => hp (h ▸ List.mem_cons_self)
    have hpb : p ≠ b := fun h => hp (h ▸ List.mem_cons_of_mem a List.mem_cons_self)
    rw [testBit_exchange, if_neg hpb, if_neg hpa]

/-- A matrix over several qubits visits every group. -/
theorem dense_eq_walk (size : Nat) (qubits : List Nat) (m : Rows K) :
    Kernel.dense size qubits m
      = Kernel.walk qubits.mergeSort (fun _ => true) (Kernel.onGroup m (groupOffsets qubits))
          (size >>> qubits.mergeSort.length) := by
  rw [length_mergeSort_eq]
  rfl

/-- Every group is taken through the matrix. -/
theorem amplitude_applyDense {qubits : List Nat} (hd : qubits.Nodup)
    (hn : ∀ q ∈ qubits, q < n) {m : Rows K} (hm : m.length = 2 ^ qubits.length)
    {s : Buffer K} (hbuf : s.size = 2 ^ n) {i : Nat} (hi : i < 2 ^ n) :
    (s.applyDense qubits m).amplitude i = denseAct qubits m s.amplitude i := by
  have hsort : ∀ j, clear qubits.mergeSort j = clear qubits j :=
    clear_congr fun q => mem_mergeSort_iff
  rw [applyDense, dense_eq_walk, Kernel.amplitude_walk (denseAct qubits m)
    (pairwise_mergeSort hd) (fun q hq => hn q (mem_mergeSort_iff.mp hq))
    (fun base s hs hbase hclear i _ => ?_) (fun ψ φ i hi hψ => ?_) hbuf hi, if_pos rfl]
  · rw [hsort] at hclear ⊢
    exact amplitude_onGroup hd hn hm hs hbase hclear i
  · unfold denseAct
    congr 1
    refine List.map_congr_left fun r _ => hψ _ (place_lt hd hi hn r) ?_
    rw [hsort, hsort, clear_place hd]

end Kernels

end Buffer

namespace GateAction

variable {n : Nat}

/-- What an action does to the amplitudes `ψ`, at each index. -/
def act : GateAction K → (Nat → K) → Nat → K
  | .matrix controls target m => Buffer.underControls controls (Buffer.pairAct target m)
  | .swap controls a b => Buffer.underControls controls (Buffer.swapAct a b)
  | .dense qubits m => Buffer.denseAct qubits m

omit [Zero K] [Add K] [Mul K] in
/-- The qubits of an action. -/
def qubits : GateAction K → List Nat
  | .matrix controls target _ => controls ++ [target]
  | .swap controls a b => controls ++ [a, b]
  | .dense qubits _ => qubits

omit [Zero K] [Add K] [Mul K] in
/-- The matrix over several qubits has a row for each pattern of their bits. -/
def hasRows : GateAction K → Prop
  | .dense qubits m => m.length = 2 ^ qubits.length
  | _ => True

omit [Zero K] [Add K] [Mul K] in
/-- The qubits of an action are distinct and inside a register of `n` qubits, and its
    matrix has as many rows as it needs. -/
def Fits (n : Nat) (a : GateAction K) : Prop :=
  a.qubits.Nodup ∧ (∀ q ∈ a.qubits, q < n) ∧ a.hasRows

section Fitting

omit [Zero K] [Add K] [Mul K]

theorem Fits.target_lt {controls : List Nat} {target : Nat} {m : Matrix2 K}
    (ha : (matrix controls target m).Fits n) : target < n :=
  ha.2.1 target (List.mem_append_right controls List.mem_cons_self)

theorem Fits.target_not_mem {controls : List Nat} {target : Nat} {m : Matrix2 K}
    (ha : (matrix controls target m).Fits n) : target ∉ controls := by
  intro hmem
  exact (List.nodup_append.mp ha.1).2.2 target hmem target List.mem_cons_self rfl

theorem Fits.swap_lt {controls : List Nat} {a b : Nat}
    (ha : (swap controls a b : GateAction K).Fits n) : a < n ∧ b < n :=
  ⟨ha.2.1 a (List.mem_append_right controls List.mem_cons_self),
    ha.2.1 b (List.mem_append_right controls (List.mem_cons_of_mem a List.mem_cons_self))⟩

/-- The two qubits of an exchange are distinct, and neither is a control. -/
theorem Fits.swap_distinct {controls : List Nat} {a b : Nat}
    (ha : (swap controls a b : GateAction K).Fits n) : a ≠ b ∧ a ∉ controls ∧ b ∉ controls := by
  rcases List.nodup_append.mp ha.1 with ⟨-, hpair, hout⟩
  have hb : b ∈ [a, b] := List.mem_cons_of_mem a List.mem_cons_self
  refine ⟨fun hab => ?_, fun hmem => hout a hmem a List.mem_cons_self rfl,
    fun hmem => hout b hmem b hb rfl⟩
  exact (List.nodup_cons.mp hpair).1 (hab ▸ List.mem_cons_self)

end Fitting

theorem apply_matrix (controls : List Nat) (target : Nat) (m : Matrix2 K) (s : Buffer K) :
    (GateAction.matrix controls target m).apply s = s.applyControlled controls target m := by
  cases controls with
  | nil => exact (Buffer.applyControlled_nil target m s).symm
  | cons q rest => rfl

/-- An action leaves the number of amplitudes as it is. -/
theorem size_apply (a : GateAction K) (s : Buffer K) : (a.apply s).size = s.size := by
  cases a with
  | matrix controls target m =>
      rw [apply_matrix]
      exact Kernel.size_after _ s
  | swap controls a b => exact Kernel.size_after _ s
  | dense qubits m => exact Kernel.size_after _ s

/-- The kernels compute what actions do. -/
theorem amplitude_apply {a : GateAction K} (ha : a.Fits n) {s : Buffer K}
    (hbuf : s.size = 2 ^ n) {i : Nat} (hi : i < 2 ^ n) :
    (a.apply s).amplitude i = a.act s.amplitude i := by
  cases a with
  | matrix controls target m =>
      rw [apply_matrix]
      exact Buffer.amplitude_applyControlled ha.target_not_mem ha.target_lt m hbuf hi
  | swap controls a b =>
      rcases ha.swap_lt with ⟨han, hbn⟩
      rcases ha.swap_distinct with ⟨hab, hac, hbc⟩
      exact Buffer.amplitude_applySwap hab hac hbc han hbn hbuf hi
  | dense qubits m => exact Buffer.amplitude_applyDense ha.1 ha.2.1 ha.2.2 hbuf hi

end GateAction

end QubitLab
