import Mathlib.Order.WellFounded
import Mathlib.Tactic.Ring
import QubitLab.Proofs.Statevector.Bits

/-!
# Groups of indices

A kernel counts the groups of a few qubits by numbers, and spreads the bits of the
number over the positions of the other qubits. This module turns the count around:
`owner` takes the bits of the qubits out of an index and answers with the number of
the group that it belongs to. The two are inverse to each other on the least indices
of groups, so an index belongs to a group exactly when clearing its bits at the
qubits gives the least index of the group.

The zeros are put in from the least position upwards, each at its final place. So
the qubits have to be in ascending order, and they are taken out from the greatest
downwards: a bit that is taken out above does not move the bits below it, which is
`removeBit_withBit` and what the induction runs on.

## Main definitions

* `Statevector.removeBit`: A number with a bit taken out.
* `Statevector.owner`: The number of the group of an index.

## Theorems

* `owner_groupBase`, `groupBase_owner`: Numbers of groups and least indices.
* `owner_eq_iff`: When an index belongs to a group.
* `shiftRight_length`, `owner_lt`: There are as many groups as the kernels count.
* `clear_groupBase`: The least index of a group has no bit of the qubits set.
* `strictMono_groupBase`: Groups are counted in the order of their least indices.
-/

namespace QubitLab

namespace Statevector

section OneBit

/-- The number `i` with the bit at position `bit` taken out; higher bits move down. -/
def removeBit (i bit : Nat) : Nat := ((i >>> (bit + 1)) <<< bit) ||| (i &&& ((1 <<< bit) - 1))

/-- The bits below the position stay, and those above move up by one. -/
theorem testBit_insertZeroBit (k bit p : Nat) :
    (insertZeroBit k bit).testBit p
      = if p < bit then k.testBit p else if p = bit then false else k.testBit (p - 1) := by
  rw [insertZeroBit, Nat.testBit_or, Nat.testBit_shiftLeft, Nat.testBit_shiftRight,
    Nat.testBit_and, Nat.one_shiftLeft, Nat.testBit_two_pow_sub_one]
  by_cases hlt : p < bit
  · rw [if_pos hlt, decide_eq_false (by omega), decide_eq_true hlt, Bool.false_and,
      Bool.false_or, Bool.and_true]
  · rw [if_neg hlt, decide_eq_false hlt, Bool.and_false, Bool.or_false]
    by_cases heq : p = bit
    · rw [if_pos heq, decide_eq_false (by omega), Bool.false_and]
    · rw [if_neg heq, decide_eq_true (by omega), Bool.true_and]
      congr 1
      omega

/-- The bits above the position move down by one. -/
theorem testBit_removeBit (i bit p : Nat) :
    (removeBit i bit).testBit p = if p < bit then i.testBit p else i.testBit (p + 1) := by
  rw [removeBit, Nat.testBit_or, Nat.testBit_shiftLeft, Nat.testBit_shiftRight,
    Nat.testBit_and, Nat.one_shiftLeft, Nat.testBit_two_pow_sub_one]
  by_cases hlt : p < bit
  · rw [if_pos hlt, decide_eq_false (by omega), decide_eq_true hlt, Bool.false_and,
      Bool.false_or, Bool.and_true]
  · rw [if_neg hlt, decide_eq_false hlt, decide_eq_true (by omega), Bool.and_false,
      Bool.or_false, Bool.true_and]
    congr 1
    omega

/-- A zero that is put in can be taken out again. -/
theorem removeBit_insertZeroBit (k bit : Nat) : removeBit (insertZeroBit k bit) bit = k := by
  refine Nat.eq_of_testBit_eq fun p => ?_
  rw [testBit_removeBit, testBit_insertZeroBit, testBit_insertZeroBit]
  by_cases hlt : p < bit
  · rw [if_pos hlt, if_pos hlt]
  · rw [if_neg hlt, if_neg (by omega), if_neg (by omega), Nat.add_sub_cancel]

/-- A bit that is taken out comes back as a zero. -/
theorem insertZeroBit_removeBit (i bit : Nat) :
    insertZeroBit (removeBit i bit) bit = withBit i bit false := by
  refine Nat.eq_of_testBit_eq fun p => ?_
  rw [testBit_insertZeroBit, testBit_withBit, testBit_removeBit, testBit_removeBit]
  by_cases hlt : p < bit
  · rw [if_pos hlt, if_pos hlt, if_neg (by omega)]
  · by_cases heq : p = bit
    · rw [if_neg hlt, if_pos heq, if_pos heq]
    · rw [if_neg hlt, if_neg heq, if_neg heq, if_neg (by omega),
        show p - 1 + 1 = p by omega]

/-- Taking a bit out leaves the bits below it in their places. -/
theorem removeBit_withBit {q bit : Nat} (h : q < bit) (i : Nat) (b : Bool) :
    removeBit (withBit i q b) bit = withBit (removeBit i bit) q b := by
  refine Nat.eq_of_testBit_eq fun p => ?_
  rw [testBit_removeBit, testBit_withBit, testBit_withBit, testBit_withBit, testBit_removeBit]
  by_cases hlt : p < bit
  · rw [if_pos hlt, if_pos hlt]
  · rw [if_neg hlt, if_neg hlt, if_neg (by omega), if_neg (by omega)]

/-- A register with a bit taken out has one qubit less. -/
theorem removeBit_lt {n i bit : Nat} (hi : i < 2 ^ (n + 1)) (hbit : bit ≤ n) :
    removeBit i bit < 2 ^ n := by
  refine lt_of_bits fun p hp => ?_
  rw [testBit_removeBit, if_neg (by omega)]
  exact testBit_eq_false_of_lt hi (by omega)

/-- What is above the position counts twice. -/
theorem insertZeroBit_eq_add (k bit : Nat) :
    insertZeroBit k bit = k + 2 ^ bit * (k / 2 ^ bit) := by
  have hlow : k % 2 ^ bit < 2 ^ (bit + 1) :=
    Nat.lt_of_lt_of_le (Nat.mod_lt k (Nat.two_pow_pos bit))
      (Nat.pow_le_pow_right (by omega) (by omega))
  rw [insertZeroBit, Nat.one_shiftLeft, Nat.and_two_pow_sub_one_eq_mod,
    ← Nat.shiftLeft_add_eq_or_of_lt hlow, Nat.shiftRight_eq_div_pow, Nat.shiftLeft_eq]
  calc k / 2 ^ bit * 2 ^ (bit + 1) + k % 2 ^ bit
      = 2 ^ bit * (k / 2 ^ bit) + k % 2 ^ bit + 2 ^ bit * (k / 2 ^ bit) := by ring
    _ = k + 2 ^ bit * (k / 2 ^ bit) := by rw [Nat.div_add_mod]

/-- Putting in a zero keeps the order of numbers. -/
theorem strictMono_insertZeroBit (bit : Nat) : StrictMono fun k => insertZeroBit k bit := by
  intro k l h
  simp only [insertZeroBit_eq_add]
  exact Nat.add_lt_add_of_lt_of_le h (Nat.mul_le_mul_left _ (Nat.div_le_div_right h.le))

end OneBit

section SeveralBits

/-- The number of the group that an index belongs to: the bits at the qubits are taken
    out, the greatest first. -/
def owner (sorted : List Nat) (i : Nat) : Nat := sorted.foldr (fun q i => removeBit i q) i

theorem owner_cons (q : Nat) (rest : List Nat) (i : Nat) :
    owner (q :: rest) i = removeBit (owner rest i) q := rfl

theorem groupBase_cons (k q : Nat) (rest : List Nat) :
    groupBase k (q :: rest) = groupBase (insertZeroBit k q) rest := rfl

/-- The least index of a group belongs to it. -/
theorem owner_groupBase (sorted : List Nat) (k : Nat) : owner sorted (groupBase k sorted) = k := by
  induction sorted generalizing k with
  | nil => rfl
  | cons q rest ih => rw [groupBase_cons, owner_cons, ih, removeBit_insertZeroBit]

/-- Putting in several zeros keeps it as well. -/
theorem strictMono_groupBase (sorted : List Nat) : StrictMono fun k => groupBase k sorted := by
  induction sorted with
  | nil => exact fun _ _ h => h
  | cons q rest ih => exact ih.comp (strictMono_insertZeroBit q)

/-- Putting in zeros does not make a number smaller. -/
theorem le_groupBase (k : Nat) (sorted : List Nat) : k ≤ groupBase k sorted :=
  (strictMono_groupBase sorted).le_apply

/-- A bit below the ones that are taken out stays where it is. -/
theorem owner_withBit {rest : List Nat} {q : Nat} (h : ∀ r ∈ rest, q < r) (i : Nat)
    (b : Bool) : owner rest (withBit i q b) = withBit (owner rest i) q b := by
  induction rest with
  | nil => rfl
  | cons r rest ih =>
      rw [owner_cons, owner_cons, ih fun p hp => h p (List.mem_cons_of_mem r hp),
        removeBit_withBit (h r List.mem_cons_self)]

/-- Spreading the number of an index's group out again clears its bits at the
    qubits. -/
theorem groupBase_owner {sorted : List Nat} (hs : sorted.Pairwise (· < ·)) (i : Nat) :
    groupBase (owner sorted i) sorted = clear sorted i := by
  -- The least position is put in first, and was taken out last.
  induction sorted generalizing i with
  | nil => rfl
  | cons q rest ih =>
      rw [List.pairwise_cons] at hs
      rw [groupBase_cons, owner_cons, insertZeroBit_removeBit, ← owner_withBit hs.1,
        ih hs.2, clear, clear, List.foldl_cons]

/-- An index belongs to a group when clearing its bits gives the least index. -/
theorem owner_eq_iff {sorted : List Nat} (hs : sorted.Pairwise (· < ·)) (i k : Nat) :
    owner sorted i = k ↔ clear sorted i = groupBase k sorted := by
  constructor
  · rintro rfl
    rw [groupBase_owner hs]
  · intro h
    rw [← owner_groupBase sorted (owner sorted i), groupBase_owner hs, h, owner_groupBase]

/-- The least index of a group is clear at its qubits. -/
theorem clear_groupBase {sorted : List Nat} (hs : sorted.Pairwise (· < ·)) (k : Nat) :
    clear sorted (groupBase k sorted) = groupBase k sorted :=
  (owner_eq_iff hs _ k).mp (owner_groupBase sorted k)

/-- Distinct qubits in ascending order leave room above each of them. -/
theorem head_add_length_lt {n q : Nat} {rest : List Nat}
    (hs : (q :: rest).Pairwise (· < ·)) (hn : ∀ r ∈ q :: rest, r < n) :
    q + rest.length < n := by
  induction rest generalizing q with
  | nil => exact hn q List.mem_cons_self
  | cons r rest ih =>
      rw [List.pairwise_cons] at hs
      have hqr := hs.1 r List.mem_cons_self
      have hrest := ih hs.2 fun p hp => hn p (List.mem_cons_of_mem q hp)
      rw [List.length_cons]
      omega

/-- There are at most as many distinct qubits as a register is wide. -/
theorem length_le_of_forall_lt {n : Nat} {sorted : List Nat} (hs : sorted.Pairwise (· < ·))
    (hn : ∀ q ∈ sorted, q < n) : sorted.length ≤ n := by
  rcases sorted with _ | ⟨q, rest⟩
  · exact Nat.zero_le n
  · have hroom := head_add_length_lt hs hn
    rw [List.length_cons]
    omega

/-- The number of groups, as the kernels compute it. -/
theorem shiftRight_length {n : Nat} {sorted : List Nat} (hs : sorted.Pairwise (· < ·))
    (hn : ∀ q ∈ sorted, q < n) : 2 ^ n >>> sorted.length = 2 ^ (n - sorted.length) := by
  rw [Nat.shiftRight_eq_div_pow, Nat.pow_div (length_le_of_forall_lt hs hn) (by omega)]

/-- Each qubit of the groups halves their number. -/
theorem owner_lt {n i : Nat} {sorted : List Nat} (hs : sorted.Pairwise (· < ·))
    (hn : ∀ q ∈ sorted, q < n) (hi : i < 2 ^ n) :
    owner sorted i < 2 ^ (n - sorted.length) := by
  induction sorted with
  | nil => exact hi
  | cons q rest ih =>
      have hroom := head_add_length_lt hs hn
      have hrest := ih (List.pairwise_cons.mp hs).2 fun p hp => hn p (List.mem_cons_of_mem q hp)
      rw [show n - rest.length = n - (q :: rest).length + 1 by rw [List.length_cons]; omega]
        at hrest
      rw [owner_cons]
      refine removeBit_lt hrest ?_
      rw [List.length_cons]
      omega

/-- The groups that are counted have their least indices in the register. -/
theorem groupBase_lt {n k : Nat} {sorted : List Nat} (hs : sorted.Pairwise (· < ·))
    (hn : ∀ q ∈ sorted, q < n) (hk : k < 2 ^ (n - sorted.length)) :
    groupBase k sorted < 2 ^ n := by
  induction sorted generalizing k with
  | nil => exact hk
  | cons q rest ih =>
      have hroom := head_add_length_lt hs hn
      rw [groupBase_cons]
      refine ih (List.pairwise_cons.mp hs).2 (fun p hp => hn p (List.mem_cons_of_mem q hp)) ?_
      -- What remains is one zero, put in below the others.
      refine lt_of_bits fun p hp => ?_
      rw [List.length_cons] at hk
      rw [testBit_insertZeroBit, if_neg (by omega), if_neg (by omega)]
      exact testBit_eq_false_of_lt hk (by omega)

end SeveralBits

section Sorting

/-- Distinct qubits in ascending order, as the kernels sort them. -/
theorem pairwise_mergeSort {qubits : List Nat} (hd : qubits.Nodup) :
    qubits.mergeSort.Pairwise (· < ·) := by
  have htrans : ∀ a b c : Nat, decide (a ≤ b) = true → decide (b ≤ c) = true →
      decide (a ≤ c) = true := by
    intro a b c hab hbc
    rw [decide_eq_true_eq] at *
    omega
  have htotal : ∀ a b : Nat, (decide (a ≤ b) || decide (b ≤ a)) = true := by
    intro a b
    rw [Bool.or_eq_true, decide_eq_true_eq, decide_eq_true_eq]
    omega
  have hle := List.pairwise_mergeSort htrans htotal qubits
  have hne : qubits.mergeSort.Nodup := (List.mergeSort_perm qubits _).nodup_iff.mpr hd
  refine (hle.and hne).imp fun h => ?_
  rw [decide_eq_true_eq] at h
  omega

/-- Sorting keeps the qubits. -/
theorem mem_mergeSort_iff {qubits : List Nat} {q : Nat} : q ∈ qubits.mergeSort ↔ q ∈ qubits :=
  (List.mergeSort_perm qubits _).mem_iff

theorem length_mergeSort_eq (qubits : List Nat) : qubits.mergeSort.length = qubits.length :=
  (List.mergeSort_perm qubits _).length_eq

end Sorting

end Statevector

end QubitLab
