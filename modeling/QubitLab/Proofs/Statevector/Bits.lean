import Mathlib.Algebra.Ring.Nat
import QubitLab.Statevector.Index

/-!
# Bits of indices

An index of an amplitude is read bit by bit: bit `q` is the value of qubit `q`. So
every function on indices is described here by the bits of its result, and two
indices are equal when their bits are. No proof about indices has to do arithmetic
after that, with one exception: `onGroup` adds an offset to the least index of
a group, and `testBit_add_offset` says that such a sum has no carries, because each
qubit of the group contributes one bit at a place that was empty.

A function that sets several bits is a fold of `withBit`, so what holds of one bit
carries over by induction on the list of qubits.

## Main definitions

* `Statevector.withBit`: An index with one bit set to a value.
* `Statevector.clear`: An index with the bits at some qubits cleared.
* `Statevector.exchange`: An index with two bits exchanged.
* `Statevector.place`: An index with the bits at some qubits taken from a number.
* `Statevector.gather`: The number that the bits at some qubits make up.

## Theorems

* `eq_of_bits`: Indices of a register are equal when their bits are.
* `testBit_withBit`, `testBit_clear`, `testBit_exchange`, `testBit_place`,
  `testBit_gather`: The bits of the results.
* `testBit_groupOffset`: The bits of an offset.
* `testBit_add_offset`: A base and an offset add up without carries.
* `place_gather`, `gather_place`: Taking bits out and putting them back.
* `gather_withBit`, `gather_exchange`: Changing a bit changes one bit that is taken out.
* `gather_place_of_disjoint`, `place_comm`: The bits of other qubits are not touched.
* `testBit_basisIndex`: The bits of a basis state.
-/

namespace QubitLab

namespace Statevector

section Extensionality

theorem testBit_eq_false_of_lt {n i q : Nat} (hi : i < 2 ^ n) (hq : n ≤ q) :
    i.testBit q = false :=
  Nat.testBit_lt_two_pow (Nat.lt_of_lt_of_le hi (Nat.pow_le_pow_right (by omega) hq))

theorem lt_of_bits {n i : Nat} (h : ∀ q, n ≤ q → i.testBit q = false) : i < 2 ^ n :=
  Nat.lt_pow_two_of_testBit i h

/-- Two indices of a register of `n` qubits are equal when their first `n` bits are. -/
theorem eq_of_bits {n i j : Nat} (hi : i < 2 ^ n) (hj : j < 2 ^ n)
    (h : ∀ q, q < n → i.testBit q = j.testBit q) : i = j := by
  refine Nat.eq_of_testBit_eq fun q => ?_
  by_cases hq : q < n
  · exact h q hq
  · rw [testBit_eq_false_of_lt hi (by omega), testBit_eq_false_of_lt hj (by omega)]

theorem testBit_one_shiftLeft (q p : Nat) : (1 <<< q).testBit p = decide (p = q) := by
  rw [Nat.one_shiftLeft, Nat.testBit_two_pow]
  exact decide_eq_decide.mpr eq_comm

end Extensionality

section OneBit

/-- The index with bit `q` set to `b`. -/
def withBit (i q : Nat) (b : Bool) : Nat := if i.testBit q = b then i else i ^^^ (1 <<< q)

/-- Setting a bit changes this one and no other. -/
theorem testBit_withBit (i q : Nat) (b : Bool) (p : Nat) :
    (withBit i q b).testBit p = if p = q then b else i.testBit p := by
  unfold withBit
  by_cases hb : i.testBit q = b
  · rw [if_pos hb]
    by_cases hp : p = q
    · rw [if_pos hp, hp, hb]
    · rw [if_neg hp]
  · -- The bit has the other value, so it is turned over.
    rw [if_neg hb, Nat.testBit_xor, testBit_one_shiftLeft]
    by_cases hp : p = q
    · rw [if_pos hp, hp, decide_eq_true rfl, Bool.xor_true]
      cases b with
      | true => rw [Bool.eq_false_iff.mpr hb, Bool.not_false]
      | false =>
          rw [Bool.not_eq_false] at hb
          rw [hb, Bool.not_true]
    · rw [if_neg hp, decide_eq_false hp, Bool.xor_false]

@[simp] theorem testBit_withBit_self (i q : Nat) (b : Bool) :
    (withBit i q b).testBit q = b := by
  rw [testBit_withBit, if_pos rfl]

theorem testBit_withBit_ne {q p : Nat} (h : p ≠ q) (i : Nat) (b : Bool) :
    (withBit i q b).testBit p = i.testBit p := by
  rw [testBit_withBit, if_neg h]

/-- An index whose bit has another value is not one in which it has been set. -/
theorem ne_withBit {i q : Nat} {b : Bool} (h : i.testBit q ≠ b) (j : Nat) :
    i ≠ withBit j q b := by
  intro heq
  rw [heq, testBit_withBit_self] at h
  exact h rfl

theorem withBit_of_testBit {i q : Nat} {b : Bool} (h : i.testBit q = b) :
    withBit i q b = i :=
  if_pos h

/-- The value that is set last is the one that stays. -/
@[simp] theorem withBit_withBit (i q : Nat) (a b : Bool) :
    withBit (withBit i q a) q b = withBit i q b := by
  refine Nat.eq_of_testBit_eq fun p => ?_
  rw [testBit_withBit, testBit_withBit, testBit_withBit]
  by_cases hp : p = q
  · rw [if_pos hp, if_pos hp]
  · rw [if_neg hp, if_neg hp, if_neg hp]

/-- Two bits can be set in either order. -/
theorem withBit_comm {q r : Nat} (h : q ≠ r) (i : Nat) (a b : Bool) :
    withBit (withBit i q a) r b = withBit (withBit i r b) q a := by
  refine Nat.eq_of_testBit_eq fun p => ?_
  simp only [testBit_withBit]
  by_cases hq : p = q
  · rw [if_neg (hq ▸ h), if_pos hq, if_pos hq]
  · rw [if_neg hq, if_neg hq]

/-- Setting a bit of a register stays inside of it. -/
theorem withBit_lt {n i q : Nat} (hi : i < 2 ^ n) (hq : q < n) (b : Bool) :
    withBit i q b < 2 ^ n := by
  refine lt_of_bits fun p hp => ?_
  rw [testBit_withBit_ne (by omega)]
  exact testBit_eq_false_of_lt hi hp

/-- The union with a weight sets its bit. -/
theorem or_one_shiftLeft (i q : Nat) : i ||| (1 <<< q) = withBit i q true := by
  refine Nat.eq_of_testBit_eq fun p => ?_
  rw [Nat.testBit_or, testBit_one_shiftLeft, testBit_withBit]
  by_cases hp : p = q
  · rw [if_pos hp, decide_eq_true hp, Bool.or_true]
  · rw [if_neg hp, decide_eq_false hp, Bool.or_false]

/-- Adding the weight of a bit that is not set sets it. -/
theorem add_one_shiftLeft {i q : Nat} (h : i.testBit q = false) :
    i + (1 <<< q) = withBit i q true := by
  refine Nat.eq_of_testBit_eq fun p => ?_
  rw [Nat.one_shiftLeft, Nat.add_comm, testBit_withBit]
  by_cases hp : p = q
  · rw [if_pos hp, hp, Nat.testBit_two_pow_add_eq, h, Bool.not_false]
  · rw [if_neg hp]
    by_cases hlt : p < q
    · exact Nat.testBit_two_pow_add_gt hlt i
    · -- Above the bit nothing changes, since there is no carry out of it.
      rcases Nat.exists_eq_add_of_le (show q + 1 ≤ p by omega) with ⟨k, rfl⟩
      have heven : (i >>> q) % 2 = 0 := by
        have hzero : (i >>> q).testBit 0 = false := by rw [Nat.testBit_shiftRight]; exact h
        rw [Nat.testBit_zero, decide_eq_false_iff_not] at hzero
        omega
      have hshift : (2 ^ q + i) >>> q = i >>> q + 1 := by
        rw [Nat.shiftRight_eq_div_pow, Nat.shiftRight_eq_div_pow,
          Nat.add_div_left _ (Nat.two_pow_pos q)]
      have hhalf : (i >>> q + 1) / 2 = (i >>> q) / 2 := by omega
      have hnew : (2 ^ q + i).testBit (q + 1 + k) = ((i >>> q + 1) / 2).testBit k := by
        rw [← Nat.testBit_succ, ← hshift, Nat.testBit_shiftRight]
        congr 1
        omega
      have hold : i.testBit (q + 1 + k) = ((i >>> q) / 2).testBit k := by
        rw [← Nat.testBit_succ, Nat.testBit_shiftRight]
        congr 1
        omega
      rw [hnew, hold, hhalf]

end OneBit

section SeveralBits

/-- The index with the bits at some qubits cleared. -/
def clear (qubits : List Nat) (i : Nat) : Nat :=
  qubits.foldl (fun i q => withBit i q false) i

/-- Clearing removes the bits of the qubits and no others. -/
theorem testBit_clear (qubits : List Nat) (i p : Nat) :
    (clear qubits i).testBit p = if p ∈ qubits then false else i.testBit p := by
  unfold clear
  -- The induction is on the qubits that are still to be cleared.
  induction qubits generalizing i with
  | nil => rw [List.foldl_nil, if_neg List.not_mem_nil]
  | cons q rest ih =>
      rw [List.foldl_cons, ih]
      by_cases hr : p ∈ rest
      · rw [if_pos hr, if_pos (List.mem_cons_of_mem q hr)]
      · rw [if_neg hr, testBit_withBit]
        by_cases hp : p = q
        · rw [if_pos hp, if_pos (hp ▸ List.mem_cons_self)]
        · rw [if_neg hp, if_neg fun h => (List.mem_cons.mp h).elim hp hr]

/-- Clearing reads a list of qubits as a set. -/
theorem clear_congr {u v : List Nat} (h : ∀ q, q ∈ u ↔ q ∈ v) (i : Nat) :
    clear u i = clear v i := by
  refine Nat.eq_of_testBit_eq fun p => ?_
  rw [testBit_clear, testBit_clear]
  by_cases hp : p ∈ u
  · rw [if_pos hp, if_pos ((h p).mp hp)]
  · rw [if_neg hp, if_neg fun hv => hp ((h p).mpr hv)]

/-- Two indices agree outside some qubits when they do so after clearing. -/
theorem clear_eq_clear {qubits : List Nat} {i j : Nat} :
    clear qubits i = clear qubits j ↔ ∀ p, p ∉ qubits → i.testBit p = j.testBit p := by
  constructor
  · intro h p hp
    have hbit := congrArg (fun k => k.testBit p) h
    simp only [testBit_clear, if_neg hp] at hbit
    exact hbit
  · intro h
    refine Nat.eq_of_testBit_eq fun p => ?_
    rw [testBit_clear, testBit_clear]
    by_cases hp : p ∈ qubits
    · rw [if_pos hp, if_pos hp]
    · rw [if_neg hp, if_neg hp, h p hp]

/-- Clearing twice is clearing once. -/
theorem clear_clear (qubits : List Nat) (i : Nat) :
    clear qubits (clear qubits i) = clear qubits i := by
  refine clear_eq_clear.mpr fun p hp => ?_
  rw [testBit_clear, if_neg hp]

theorem clear_lt {n i : Nat} (hi : i < 2 ^ n) (qubits : List Nat) : clear qubits i < 2 ^ n := by
  refine lt_of_bits fun p hp => ?_
  rw [testBit_clear, testBit_eq_false_of_lt hi hp, ite_self]

/-- Nothing outside a register is in the group of an index inside. -/
theorem lt_of_clear_lt {n i : Nat} {qubits : List Nat} (hq : ∀ q ∈ qubits, q < n)
    (h : clear qubits i < 2 ^ n) : i < 2 ^ n := by
  refine lt_of_bits fun p hp => ?_
  have hout : p ∉ qubits := fun hmem => absurd (hq p hmem) (by omega)
  have hbit := testBit_eq_false_of_lt h hp
  rwa [testBit_clear, if_neg hout] at hbit

/-- The index with bits `a` and `b` exchanged. -/
def exchange (a b i : Nat) : Nat := withBit (withBit i a (i.testBit b)) b (i.testBit a)

/-- Each of the two bits has the value of the other one. -/
theorem testBit_exchange (a b i p : Nat) :
    (exchange a b i).testBit p
      = if p = b then i.testBit a else if p = a then i.testBit b else i.testBit p := by
  rw [exchange, testBit_withBit, testBit_withBit]

theorem exchange_lt {n i a b : Nat} (hi : i < 2 ^ n) (ha : a < n) (hb : b < n) :
    exchange a b i < 2 ^ n :=
  withBit_lt (withBit_lt hi ha _) hb _

/-- Bits with one value are exchanged for nothing. -/
theorem exchange_of_testBit_eq {a b i : Nat} (h : i.testBit a = i.testBit b) :
    exchange a b i = i := by
  rw [exchange, withBit_of_testBit h, withBit_of_testBit h.symm]

theorem exchange_comm {a b : Nat} (h : a ≠ b) (i : Nat) : exchange a b i = exchange b a i := by
  rw [exchange, exchange, withBit_comm h]

/-- Exchanging twice is doing nothing. -/
theorem exchange_exchange (a b i : Nat) : exchange a b (exchange a b i) = i := by
  refine Nat.eq_of_testBit_eq fun p => ?_
  have ha : (exchange a b i).testBit a = i.testBit b := by
    rw [testBit_exchange]
    by_cases hab : a = b
    · rw [if_pos hab, hab]
    · rw [if_neg hab, if_pos rfl]
  have hb : (exchange a b i).testBit b = i.testBit a := by rw [testBit_exchange, if_pos rfl]
  -- Each of the two bits has come back, and the others have not been touched.
  rw [testBit_exchange, ha, hb, testBit_exchange]
  by_cases hpb : p = b
  · rw [if_pos hpb, hpb]
  · rw [if_neg hpb, if_neg hpb]
    by_cases hpa : p = a
    · rw [if_pos hpa, hpa]
    · rw [if_neg hpa, if_neg hpa]

end SeveralBits

section Groups

/-- The offset of a group member, with the bits of `r` from position `start` on. -/
def offsetFrom (start : Nat) (qubits : List Nat) (r : Nat) : Nat :=
  ((qubits.zipIdx start).map fun p => if r.testBit p.2 then 1 <<< p.1 else 0).foldr
    (· + ·) 0

/-- The weights of distinct qubits add up to a base without carries, whatever the position in the
    row that the first of them has. -/
theorem testBit_add_offsetFrom {base : Nat} {qubits : List Nat} (start r p : Nat)
    (hbase : ∀ q ∈ qubits, base.testBit q = false) (hd : qubits.Nodup) :
    (base + offsetFrom start qubits r).testBit p
      = if p ∈ qubits then r.testBit (start + qubits.idxOf p) else base.testBit p := by
  -- The induction is on the qubits. The first one moves into the base, which stays empty at the
  -- others since they are distinct from it.
  induction qubits generalizing base start with
  | nil =>
      rw [if_neg List.not_mem_nil]
      rfl
  | cons q rest ih =>
      have hq := hbase q List.mem_cons_self
      rw [List.nodup_cons] at hd
      -- The first qubit sets one bit of the base, and leaves the others' bits empty.
      have hfirst : base + (if r.testBit start then 1 <<< q else 0)
          = withBit base q (r.testBit start) := by
        cases r.testBit start with
        | true => exact add_one_shiftLeft hq
        | false => exact (withBit_of_testBit hq).symm
      have hsum : base + offsetFrom start (q :: rest) r
          = withBit base q (r.testBit start) + offsetFrom (start + 1) rest r := by
        rw [offsetFrom, List.zipIdx_cons, List.map_cons, List.foldr_cons, ← Nat.add_assoc,
          hfirst, offsetFrom]
      have hrest : ∀ p ∈ rest, (withBit base q (r.testBit start)).testBit p = false := by
        intro p hp
        have hne : p ≠ q := fun h => hd.1 (h ▸ hp)
        rw [testBit_withBit_ne hne]
        exact hbase p (List.mem_cons_of_mem q hp)
      rw [hsum, ih (start + 1) hrest hd.2]
      by_cases hpr : p ∈ rest
      · have hne : p ≠ q := fun h => hd.1 (h ▸ hpr)
        -- Behind the first qubit, the positions in the row are one less.
        have hidx : (q :: rest).idxOf p = rest.idxOf p + 1 := by
          rw [List.idxOf_cons, beq_false_of_ne fun h => hne h.symm, cond_false]
        rw [if_pos hpr, if_pos (List.mem_cons_of_mem q hpr), hidx]
        congr 1
        omega
      · rw [if_neg hpr, testBit_withBit]
        by_cases hpq : p = q
        · rw [if_pos hpq, if_pos (hpq ▸ List.mem_cons_self), hpq, List.idxOf_cons_self,
            Nat.add_zero]
        · rw [if_neg hpq, if_neg fun h => (List.mem_cons.mp h).elim hpq hpr]

/-- A base that is empty at the qubits and an offset over them add up without
    carries. -/
theorem testBit_add_offset {base : Nat} {qubits : List Nat} (r p : Nat)
    (hbase : ∀ q ∈ qubits, base.testBit q = false) (hd : qubits.Nodup) :
    (base + groupOffset qubits r).testBit p
      = if p ∈ qubits then r.testBit (qubits.idxOf p) else base.testBit p := by
  have h := testBit_add_offsetFrom 0 r p hbase hd
  rw [Nat.zero_add] at h
  exact h

/-- The bit of an offset at a qubit is the bit of the row at its position. -/
theorem testBit_groupOffset {qubits : List Nat} (hd : qubits.Nodup) (r p : Nat) :
    (groupOffset qubits r).testBit p
      = if p ∈ qubits then r.testBit (qubits.idxOf p) else false := by
  have h := @testBit_add_offset 0 qubits r p (fun q _ => Nat.zero_testBit q) hd
  rw [Nat.zero_add, Nat.zero_testBit] at h
  exact h

/-- Offsets over qubits of a register are inside of it. -/
theorem groupOffset_lt {n : Nat} {qubits : List Nat} (hd : qubits.Nodup)
    (hq : ∀ q ∈ qubits, q < n) (r : Nat) : groupOffset qubits r < 2 ^ n := by
  refine lt_of_bits fun p hp => ?_
  rw [testBit_groupOffset hd, if_neg fun h => absurd (hq p h) (by omega)]

/-- The index with the bits at some qubits taken from `r`, the first qubit having the
    least significant one. -/
def place (qubits : List Nat) (i r : Nat) : Nat := clear qubits i + groupOffset qubits r

/-- The bits at the qubits are those of the row, and the others are those of the index. -/
theorem testBit_place {qubits : List Nat} (hd : qubits.Nodup) (i r p : Nat) :
    (place qubits i r).testBit p
      = if p ∈ qubits then r.testBit (qubits.idxOf p) else i.testBit p := by
  have hbase : ∀ q ∈ qubits, (clear qubits i).testBit q = false := by
    intro q hq
    rw [testBit_clear, if_pos hq]
  rw [place, testBit_add_offset r p hbase hd]
  by_cases hp : p ∈ qubits
  · rw [if_pos hp, if_pos hp]
  · rw [if_neg hp, if_neg hp, testBit_clear, if_neg hp]

theorem place_lt {n i : Nat} {qubits : List Nat} (hd : qubits.Nodup) (hi : i < 2 ^ n)
    (hn : ∀ q ∈ qubits, q < n) (r : Nat) : place qubits i r < 2 ^ n := by
  refine lt_of_bits fun p hp => ?_
  rw [testBit_place hd, if_neg fun h => absurd (hn p h) (by omega)]
  exact testBit_eq_false_of_lt hi hp

/-- The number that the bits at some qubits make up, the first qubit giving the least
    significant one. -/
def gather (qubits : List Nat) (i : Nat) : Nat :=
  match qubits with
  | [] => 0
  | q :: rest => 2 * gather rest i + (i.testBit q).toNat

/-- As many bits as there are qubits make up a number below that power of two. -/
theorem gather_lt (qubits : List Nat) (i : Nat) : gather qubits i < 2 ^ qubits.length := by
  induction qubits with
  | nil => exact Nat.one_pos
  | cons q rest ih =>
      have hbit := Bool.toNat_le (i.testBit q)
      rw [gather, List.length_cons, Nat.pow_succ]
      omega

/-- The bits that are gathered stand in the order of the qubits. -/
theorem testBit_gather {qubits : List Nat} {k q : Nat} (h : qubits[k]? = some q) (i : Nat) :
    (gather qubits i).testBit k = i.testBit q := by
  induction qubits generalizing k with
  | nil => exact absurd h (by simp only [List.getElem?_nil, reduceCtorEq, not_false_eq_true])
  | cons p rest ih =>
      rw [gather]
      cases k with
      | zero =>
          rw [List.getElem?_cons_zero, Option.some.injEq] at h
          rw [h, Nat.testBit_zero]
          cases i.testBit q with
          | true => exact decide_eq_true (by rw [Bool.toNat_true]; omega)
          | false => exact decide_eq_false (by rw [Bool.toNat_false]; omega)
      | succ k =>
          rw [List.getElem?_cons_succ] at h
          -- Behind the first qubit, what is gathered is half of the number.
          have hhalf : (2 * gather rest i + (i.testBit p).toNat) / 2 = gather rest i := by
            have hbit := Bool.toNat_le (i.testBit p)
            omega
          rw [Nat.testBit_succ, hhalf, ih h]

theorem testBit_gather_idxOf {qubits : List Nat} {q : Nat} (h : q ∈ qubits) (i : Nat) :
    (gather qubits i).testBit (qubits.idxOf q) = i.testBit q := by
  refine testBit_gather ?_ i
  have hlt := List.idxOf_lt_length_of_mem h
  rw [List.getElem?_eq_getElem hlt, List.getElem_idxOf]

/-- Putting the bits of an index back changes nothing. -/
theorem place_gather {qubits : List Nat} (hd : qubits.Nodup) (i : Nat) :
    place qubits i (gather qubits i) = i := by
  refine Nat.eq_of_testBit_eq fun p => ?_
  rw [testBit_place hd]
  by_cases hp : p ∈ qubits
  · rw [if_pos hp, testBit_gather_idxOf hp]
  · rw [if_neg hp]

/-- The bits that were put in can be taken out again. -/
theorem gather_place {qubits : List Nat} (hd : qubits.Nodup) (i : Nat) {r : Nat}
    (hr : r < 2 ^ qubits.length) : gather qubits (place qubits i r) = r := by
  refine eq_of_bits (gather_lt qubits _) hr fun k hk => ?_
  have hget := List.getElem?_eq_getElem hk
  rw [testBit_gather hget, testBit_place hd, if_pos (List.getElem_mem hk),
    hd.idxOf_getElem k hk]

/-- Putting bits in at the qubits stays in the group. -/
theorem clear_place {qubits : List Nat} (hd : qubits.Nodup) (i r : Nat) :
    clear qubits (place qubits i r) = clear qubits i := by
  refine clear_eq_clear.mpr fun p hp => ?_
  rw [testBit_place hd, if_neg hp]

/-- Every member of the group of an index is found by its own bits. -/
theorem place_gather_of_clear {qubits : List Nat} (hd : qubits.Nodup) {i j : Nat}
    (h : clear qubits j = clear qubits i) : place qubits i (gather qubits j) = j := by
  rw [place, ← h]
  exact place_gather hd j

/-- Setting the bit of the qubit at position `k` sets bit `k` of what is gathered. -/
theorem gather_withBit {qubits : List Nat} (hd : qubits.Nodup) {k q : Nat}
    (h : qubits[k]? = some q) (i : Nat) (b : Bool) :
    gather qubits (withBit i q b) = withBit (gather qubits i) k b := by
  have hk := (List.getElem?_eq_some_iff.mp h).1
  refine eq_of_bits (gather_lt qubits _) (withBit_lt (gather_lt qubits i) hk b) fun l hl => ?_
  have hget := List.getElem?_eq_getElem hl
  rw [testBit_gather hget, testBit_withBit, testBit_withBit, testBit_gather hget]
  by_cases hlk : l = k
  · have hlq : qubits[l] = q := by
      rw [← Option.some.injEq, ← hget, hlk, h]
    rw [if_pos hlk, if_pos hlq]
  · -- Another position holds another qubit.
    have hne : qubits[l] ≠ q := by
      intro heq
      refine hlk ((List.getElem?_inj hl hd).mp ?_)
      rw [hget, heq, h]
    rw [if_neg hlk, if_neg hne]

/-- Exchanging two of the qubits exchanges their positions in what is gathered. -/
theorem gather_exchange {qubits : List Nat} (hd : qubits.Nodup) {k l a b : Nat}
    (ha : qubits[k]? = some a) (hb : qubits[l]? = some b) (i : Nat) :
    gather qubits (exchange a b i) = exchange k l (gather qubits i) := by
  rw [exchange, gather_withBit hd hb, gather_withBit hd ha, exchange, testBit_gather ha,
    testBit_gather hb]

end Groups

section BasisStates

/-- The bits from position `start` on are put in by a fold. -/
theorem testBit_foldl_bits (bits : List Bool) (start acc p : Nat) :
    ((bits.zipIdx start).foldl (fun acc x => if x.1 then acc ||| (1 <<< x.2) else acc) acc).testBit p
      = (acc.testBit p || (decide (start ≤ p) && bits.getD (p - start) false)) := by
  induction bits generalizing start acc with
  | nil => rw [List.zipIdx_nil, List.foldl_nil, List.getD_nil, Bool.and_false, Bool.or_false]
  | cons b rest ih =>
      have hfirst : (if b then acc ||| (1 <<< start) else acc).testBit p
          = (acc.testBit p || (decide (p = start) && b)) := by
        cases b with
        | true => rw [if_pos rfl, Nat.testBit_or, testBit_one_shiftLeft, Bool.and_true]
        | false => rw [if_neg Bool.false_ne_true, Bool.and_false, Bool.or_false]
      rw [List.zipIdx_cons, List.foldl_cons, ih, hfirst, Bool.or_assoc]
      congr 1
      -- The position is before the bits, at the first of them, or at a later one.
      rcases Nat.lt_trichotomy p start with hlt | rfl | hgt
      · rw [decide_eq_false (by omega), decide_eq_false (by omega), decide_eq_false (by omega)]
        rfl
      · rw [decide_eq_true rfl, decide_eq_false (by omega), decide_eq_true (le_refl p),
          Nat.sub_self, List.getD_cons_zero, Bool.false_and, Bool.or_false]
      · rw [decide_eq_false (by omega), decide_eq_true (by omega), decide_eq_true (by omega),
          show p - start = p - (start + 1) + 1 by omega, List.getD_cons_succ, Bool.false_and,
          Bool.false_or]

/-- The bits of a basis state are the ones that were read. -/
theorem testBit_basisIndex (bits : List Bool) (p : Nat) :
    (basisIndex bits).testBit p = bits.getD p false := by
  rw [basisIndex, testBit_foldl_bits, Nat.zero_testBit, decide_eq_true (Nat.zero_le p),
    Nat.sub_zero, Bool.true_and, Bool.false_or]

theorem basisIndex_lt (bits : List Bool) : basisIndex bits < 2 ^ bits.length := by
  refine lt_of_bits fun p hp => ?_
  rw [testBit_basisIndex, List.getD_eq_getElem?_getD, List.getElem?_eq_none hp, Option.getD_none]

end BasisStates

section Disjoint

variable {u v : List Nat}

/-- Writing the bits of other qubits leaves what is gathered as it is. -/
theorem gather_place_of_disjoint (hv : v.Nodup) (h : ∀ q ∈ u, q ∉ v) (i r : Nat) :
    gather u (place v i r) = gather u i := by
  refine eq_of_bits (gather_lt u _) (gather_lt u i) fun k hk => ?_
  have hget := List.getElem?_eq_getElem hk
  rw [testBit_gather hget, testBit_gather hget, testBit_place hv,
    if_neg (h _ (List.getElem_mem hk))]

/-- The bits of disjoint lists of qubits can be written in either order. -/
theorem place_comm (hu : u.Nodup) (hv : v.Nodup) (h : ∀ q ∈ u, q ∉ v) (i r s : Nat) :
    place u (place v i s) r = place v (place u i r) s := by
  refine Nat.eq_of_testBit_eq fun p => ?_
  rw [testBit_place hu, testBit_place hv, testBit_place hv, testBit_place hu]
  by_cases hp : p ∈ u
  · rw [if_pos hp, if_neg (h p hp), if_pos hp]
  · rw [if_neg hp, if_neg hp]

end Disjoint

end Statevector

end QubitLab
