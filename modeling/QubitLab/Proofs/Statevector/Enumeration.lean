import Mathlib.Data.List.Nodup
import Mathlib.Data.Set.Function
import QubitLab.Proofs.Statevector.Words
import QubitLab.Statevector.Size

/-!
# The members of all groups

A matrix over several qubits is applied by counting: the groups by their numbers, and the
members of a group by the rows of the matrix. An index is met as the sum of a least index
and an offset, and the two counts together meet every index of the register once. The
inverse is explicit. `owner` tells the group of an index, `gather` the row, and each of them
looks only at the bits that the other one skips.

Nothing of this needs the order of the qubits, which is the order of the bits of a row. Only
the zeros of the least index have to be put in at ascending positions.

The indices are words, and the amplitudes of a register that can be addressed are so few
that there is room above them. `ExactMember` says of everything that is computed for a
member that it is as it would be with numbers of any size.

## Main definitions

* `Statevector.member`: The index of a member of a group.
* `WordIndex.ExactMember`: Each operation by which it is computed has the value that it has
  on numbers.

## Theorems

* `testBit_member`: The bits of a member.
* `member_eq_or`: The sum has no carries.
* `owner_member`, `gather_member`, `member_owner_gather`: Counting and its inverse.
* `groups_enumerated`: The two counts meet every index once, without an overflow.
-/

namespace QubitLab

namespace Statevector

variable {n g r : Nat} {qubits : List Nat}

section Members

/-- The index of the member of the `g`-th group in which the qubits have the bits of `r`. -/
def member (qubits : List Nat) (g r : Nat) : Nat :=
  groupBase g qubits.mergeSort + (groupOffsets qubits).getD r 0

/-- The offsets are listed by rows. -/
theorem getD_groupOffsets (hr : r < 2 ^ qubits.length) :
    (groupOffsets qubits).getD r 0 = groupOffset qubits r := by
  have hlt : r < (groupOffsets qubits).length := by
    rwa [groupOffsets, List.length_map, List.length_range, Nat.one_shiftLeft]
  rw [List.getD_eq_getElem?_getD, List.getElem?_eq_getElem hlt, Option.getD_some]
  simp only [groupOffsets, List.getElem_map, List.getElem_range]

/-- The least index of a group is clear at the qubits, in whatever order they are. -/
theorem clear_groupBase_mergeSort (hd : qubits.Nodup) (g : Nat) :
    clear qubits (groupBase g qubits.mergeSort) = groupBase g qubits.mergeSort := by
  rw [← clear_congr fun q => mem_mergeSort_iff]
  exact clear_groupBase (pairwise_mergeSort hd) g

theorem testBit_groupBase (hd : qubits.Nodup) (g : Nat) {q : Nat} (hq : q ∈ qubits) :
    (groupBase g qubits.mergeSort).testBit q = false := by
  rw [← clear_groupBase_mergeSort hd, testBit_clear, if_pos hq]

/-- A member has the bits of the least index, with those of the row put in at the qubits. -/
theorem member_eq_place (hd : qubits.Nodup) (hr : r < 2 ^ qubits.length) (g : Nat) :
    member qubits g r = place qubits (groupBase g qubits.mergeSort) r := by
  rw [member, getD_groupOffsets hr, place, clear_groupBase_mergeSort hd]

/-- Bit by bit, a member has the row at its qubits. -/
theorem testBit_member (hd : qubits.Nodup) (hr : r < 2 ^ qubits.length) (g : Nat) {j : Nat}
    (hj : j < qubits.length) : (member qubits g r).testBit qubits[j] = r.testBit j := by
  rw [member_eq_place hd hr, testBit_place hd, if_pos (List.getElem_mem hj), hd.idxOf_getElem j hj]

/-- The least index and the offset have no bit in common. -/
theorem member_eq_or (hd : qubits.Nodup) (hr : r < 2 ^ qubits.length) (g : Nat) :
    member qubits g r = groupBase g qubits.mergeSort ||| (groupOffsets qubits).getD r 0 := by
  refine Nat.eq_of_testBit_eq fun p => ?_
  rw [member_eq_place hd hr, testBit_place hd, getD_groupOffsets hr, Nat.testBit_or,
    testBit_groupOffset hd]
  by_cases hp : p ∈ qubits
  · rw [if_pos hp, if_pos hp, testBit_groupBase hd g hp, Bool.false_or]
  · rw [if_neg hp, if_neg hp, Bool.or_false]

end Members

section Counting

/-- The room for the groups, with the qubits in any order. -/
theorem groupBase_mergeSort_lt (hd : qubits.Nodup) (hq : ∀ q ∈ qubits, q < n)
    (hg : g < 2 ^ (n - qubits.length)) : groupBase g qubits.mergeSort < 2 ^ n := by
  rw [← length_mergeSort_eq] at hg
  exact groupBase_lt (pairwise_mergeSort hd) (fun q h => hq q (mem_mergeSort_iff.mp h)) hg

/-- Every member is an index of the register. -/
theorem member_lt (hd : qubits.Nodup) (hq : ∀ q ∈ qubits, q < n)
    (hg : g < 2 ^ (n - qubits.length)) (hr : r < 2 ^ qubits.length) :
    member qubits g r < 2 ^ n := by
  rw [member_eq_place hd hr]
  exact place_lt hd (groupBase_mergeSort_lt hd hq hg) hq r

/-- The group of a member is the one that it was counted in. -/
theorem owner_member (hd : qubits.Nodup) (hr : r < 2 ^ qubits.length) (g : Nat) :
    owner qubits.mergeSort (member qubits g r) = g := by
  rw [owner_eq_iff (pairwise_mergeSort hd), clear_congr fun q => mem_mergeSort_iff,
    member_eq_place hd hr, clear_place hd, clear_groupBase_mergeSort hd]

/-- The bits of a member at the qubits are those of its row. -/
theorem gather_member (hd : qubits.Nodup) (hr : r < 2 ^ qubits.length) (g : Nat) :
    gather qubits (member qubits g r) = r := by
  rw [member_eq_place hd hr, gather_place hd _ hr]

/-- Every index is a member of its group. -/
theorem member_owner_gather (hd : qubits.Nodup) (i : Nat) :
    member qubits (owner qubits.mergeSort i) (gather qubits i) = i := by
  rw [member, getD_groupOffsets (gather_lt qubits i), groupBase_owner (pairwise_mergeSort hd),
    clear_congr fun q => mem_mergeSort_iff]
  exact place_gather hd i

/-- Groups and rows together count every index of the register once. -/
theorem bijOn_member (hd : qubits.Nodup) (hq : ∀ q ∈ qubits, q < n) :
    Set.BijOn (fun p : Nat × Nat => member qubits p.1 p.2)
      {p | p.1 < 2 ^ (n - qubits.length) ∧ p.2 < 2 ^ qubits.length} {i | i < 2 ^ n} := by
  -- The group and the row of an index are computed from its bits.
  have hinv : Set.InvOn (fun i => (owner qubits.mergeSort i, gather qubits i))
      (fun p : Nat × Nat => member qubits p.1 p.2)
      {p | p.1 < 2 ^ (n - qubits.length) ∧ p.2 < 2 ^ qubits.length} {i | i < 2 ^ n} := by
    refine ⟨?_, fun i _ => member_owner_gather hd i⟩
    rintro ⟨g, r⟩ ⟨-, hr⟩
    exact Prod.ext (owner_member hd hr g) (gather_member hd hr g)
  refine hinv.bijOn ?_ ?_
  · rintro ⟨g, r⟩ ⟨hg, hr⟩
    exact member_lt hd hq hg hr
  · intro i hi
    have howner := owner_lt (pairwise_mergeSort hd) (fun q h => hq q (mem_mergeSort_iff.mp h)) hi
    rw [length_mergeSort_eq] at howner
    exact ⟨howner, gather_lt qubits i⟩

end Counting

section Pairs

theorem groupOffset_singleton (target r : Nat) :
    groupOffset [target] r = if r.testBit 0 then 1 <<< target else 0 :=
  Nat.add_zero _

/-- The pairs of one qubit are its groups. -/
theorem pairIndices_eq_member (k target : Nat) :
    pairIndices k target = (member [target] k 0, member [target] k 1) := by
  have hd := List.nodup_singleton target
  have hbase : groupBase k [target].mergeSort = insertZeroBit k target := by
    rw [List.mergeSort_singleton]
    rfl
  have hrow : ∀ r, r < 2 → r < 2 ^ [target].length := fun r h => h
  rw [member_eq_or hd (hrow 0 (by decide)), member_eq_or hd (hrow 1 (by decide)),
    getD_groupOffsets (hrow 0 (by decide)), getD_groupOffsets (hrow 1 (by decide)),
    groupOffset_singleton, groupOffset_singleton, hbase, Nat.zero_testBit,
    if_neg Bool.false_ne_true, Nat.or_zero, Nat.testBit_one_zero, if_pos rfl]
  rfl

end Pairs

/-- A register that can be addressed leaves room in a word. -/
theorem lt_of_dimension? (h : dimension? n = some (2 ^ n)) : n < 59 := by
  unfold dimension? at h
  split at h
  · next hfits =>
      by_contra hlarge
      -- A wider register would take more bytes than a signed word counts.
      have hpow : 2 ^ 59 ≤ 1 <<< n := by
        rw [Nat.one_shiftLeft]
        exact Nat.pow_le_pow_right (by decide) (by omega)
      have hbytes : 16 * (1 <<< n) ≤ 2 ^ 63 - 1 := hfits.2
      omega
  · exact absurd h (by simp only [reduceCtorEq, not_false_eq_true])

end Statevector

namespace WordIndex

open Statevector (member)

variable {n g r : Nat} {qubits : List Nat}

/-- Each shift, sum and union by which the index of a member is computed has on words the
    value that it has on numbers. -/
structure ExactMember (qubits : List Nat) (g r : Nat) : Prop where
  /-- Each zero that is put in. -/
  insertion : ∀ before q after, qubits.mergeSort = before ++ q :: after →
    ExactInsertion (Statevector.groupBase g before) q
  /-- The least index of the group. -/
  base : (groupBase (UInt64.ofNat g) (qubits.mergeSort.map UInt64.ofNat)).toNat
    = Statevector.groupBase g qubits.mergeSort
  /-- The number of rows. -/
  rows : (single (UInt64.ofNat qubits.length)).toNat = 1 <<< qubits.length
  /-- The row, shifted down to each of its bits. -/
  shifted : ∀ j, j < qubits.length → (UInt64.ofNat r >>> UInt64.ofNat j).toNat = r >>> j
  /-- Each bit of the row. -/
  bit : ∀ j, j < qubits.length →
    hasBit (UInt64.ofNat r) (UInt64.ofNat j) = r.testBit j
  /-- Each weight. -/
  weight : ∀ q ∈ qubits, (single (UInt64.ofNat q)).toNat = 1 <<< q
  /-- Each partial sum of the weights. -/
  partialSum : ∀ count, (groupOffset ((qubits.take count).map UInt64.ofNat) r).toNat
    = Statevector.groupOffset (qubits.take count) r
  /-- The offset of the row. -/
  offset : ((groupOffsets (qubits.map UInt64.ofNat)).getD r 0).toNat
    = (Statevector.groupOffsets qubits).getD r 0
  /-- The sum of the least index and the offset. -/
  sum : (groupBase (UInt64.ofNat g) (qubits.mergeSort.map UInt64.ofNat)
      + (groupOffsets (qubits.map UInt64.ofNat)).getD r 0).toNat = member qubits g r
  /-- The union of the two. -/
  union : (groupBase (UInt64.ofNat g) (qubits.mergeSort.map UInt64.ofNat)
      ||| (groupOffsets (qubits.map UInt64.ofNat)).getD r 0).toNat = member qubits g r

/-- The offsets are the same on words. -/
theorem toNat_getD_groupOffsets (hd : qubits.Nodup) (hq : ∀ q ∈ qubits, q < 64)
    (hr : r < 2 ^ qubits.length) :
    ((groupOffsets (qubits.map UInt64.ofNat)).getD r 0).toNat
      = (Statevector.groupOffsets qubits).getD r 0 := by
  have hlt : r < (groupOffsets (qubits.map UInt64.ofNat)).length := by
    rwa [groupOffsets, List.length_map, List.length_range, List.length_map, Nat.one_shiftLeft]
  rw [Statevector.getD_groupOffsets hr, List.getD_eq_getElem?_getD, List.getElem?_eq_getElem hlt,
    Option.getD_some, ← toNat_groupOffset hd hq]
  simp only [groupOffsets, List.getElem_map, List.getElem_range]

/-- In a register of fewer qubits than a word has bits, no member overflows. -/
theorem exactMember (hn : n < 63) (hd : qubits.Nodup) (hq : ∀ q ∈ qubits, q < n)
    (hg : g < 2 ^ (n - qubits.length)) (hr : r < 2 ^ qubits.length) :
    ExactMember qubits g r := by
  have hq64 : ∀ q ∈ qubits, q < 64 := fun q h => (hq q h).trans (hn.trans (by decide))
  have hsorted : ∀ q ∈ qubits.mergeSort, q < 63 := fun q h =>
    (hq q (Statevector.mem_mergeSort_iff.mp h)).trans hn
  have hroom : 2 ^ n < 2 ^ 64 := Nat.pow_lt_pow_right (by decide) (hn.trans (by decide))
  have hbaseLt : Statevector.groupBase g qubits.mergeSort < 2 ^ 64 :=
    (Statevector.groupBase_mergeSort_lt hd hq hg).trans hroom
  have hbase := toNat_groupBase hsorted hbaseLt
  have hoffset := toNat_getD_groupOffsets hd hq64 hr
  have hlen : qubits.length ≤ n := Statevector.length_mergeSort_eq qubits ▸
    Statevector.length_le_of_forall_lt (Statevector.pairwise_mergeSort hd)
      fun q h => hq q (Statevector.mem_mergeSort_iff.mp h)
  have hrow : (UInt64.ofNat r).toNat = r :=
    toNat_ofNat (hr.trans ((Nat.pow_le_pow_right (by decide) hlen).trans_lt hroom))
  -- The last of the zeros gives an index of the register, and so does the sum with an offset. This
  -- is what bounds all that is computed on the way.
  refine ⟨fun before q after heq => ?_, hbase, toNat_single (by omega), fun j hj => ?_,
    fun j hj => ?_, fun q h => toNat_single (hq64 q h), fun count => ?_, hoffset, ?_, ?_⟩
  · -- The zeros that are still to come make the index greater.
    have hmem : q ∈ qubits.mergeSort := heq ▸ List.mem_append_right before List.mem_cons_self
    refine exactInsertion (hsorted q hmem) ?_
    have hsplit : Statevector.groupBase g qubits.mergeSort
        = Statevector.groupBase (Statevector.insertZeroBit (Statevector.groupBase g before) q)
            after := by
      rw [heq, Statevector.groupBase, List.foldl_append]
      rfl
    exact (Statevector.le_groupBase _ after).trans_lt (hsplit ▸ hbaseLt)
  · rw [toNat_shiftRight_position _ (by omega), hrow]
  · rw [hasBit_eq_testBit _ (by omega), hrow]
  · exact toNat_groupOffset (hd.sublist (List.take_sublist count qubits))
      (fun q h => hq64 q (List.mem_of_mem_take h)) r
  · rw [UInt64.toNat_add, hbase, hoffset, Nat.mod_eq_of_lt]
    · rfl
    · exact (Statevector.member_lt hd hq hg hr).trans hroom
  · rw [UInt64.toNat_or, hbase, hoffset, Statevector.member_eq_or hd hr]

end WordIndex

namespace Statevector

variable {n : Nat} {qubits : List Nat}

/-- The groups of some qubits and the rows of a matrix over them count every index of an
    addressable register once. Bit `j` of the row is the bit of the `j`-th qubit, the least
    index of a group has zeros at all of them and grows with the number of the group, and
    the sum of the two is a union of bits. Every step of this is the same on words. The two
    indices of a pair are what this comes to for one qubit. -/
theorem groups_enumerated (hn : dimension? n = some (2 ^ n)) (hd : qubits.Nodup)
    (hq : ∀ q ∈ qubits, q < n) :
    Set.BijOn (fun p : Nat × Nat => member qubits p.1 p.2)
        {p | p.1 < 2 ^ (n - qubits.length) ∧ p.2 < 2 ^ qubits.length} {i | i < 2 ^ n} ∧
      StrictMono (fun g => groupBase g qubits.mergeSort) ∧
      (∀ g r, g < 2 ^ (n - qubits.length) → r < 2 ^ qubits.length →
        (∀ q ∈ qubits, (groupBase g qubits.mergeSort).testBit q = false) ∧
        (∀ j (hj : j < qubits.length), (member qubits g r).testBit qubits[j] = r.testBit j) ∧
        member qubits g r = groupBase g qubits.mergeSort ||| (groupOffsets qubits).getD r 0 ∧
        WordIndex.ExactMember qubits g r) ∧
      ∀ target k, target < n → k < 2 ^ (n - 1) →
        pairIndices k target = (member [target] k 0, member [target] k 1) ∧
        (WordIndex.pairIndices (UInt64.ofNat k) (UInt64.ofNat target)).1.toNat
          = (pairIndices k target).1 ∧
        (WordIndex.pairIndices (UInt64.ofNat k) (UInt64.ofNat target)).2.toNat
          = (pairIndices k target).2 := by
  have hsmall : n < 63 := (lt_of_dimension? hn).trans (by decide)
  refine ⟨bijOn_member hd hq, strictMono_groupBase _, fun g r hg hr => ?_, fun target k ht hk => ?_⟩
  · exact ⟨fun q h => testBit_groupBase hd g h, fun j hj => testBit_member hd hr g hj,
      member_eq_or hd hr g, WordIndex.exactMember hsmall hd hq hg hr⟩
  · have hfits : insertZeroBit k target < 2 ^ n :=
      groupBase_lt (List.pairwise_singleton _ target) (by simpa using ht) hk
    have hexact := WordIndex.exactInsertion (ht.trans hsmall)
      (hfits.trans (Nat.pow_lt_pow_right (by decide) (hsmall.trans (by decide))))
    exact ⟨pairIndices_eq_member k target, WordIndex.toNat_pairIndices hexact⟩

/-- Three of five qubits, in an order that is not ascending. -/
theorem groups_enumerated_unsorted :
    dimension? 5 = some (2 ^ 5) ∧
      groupBase 2 [3, 0, 2].mergeSort < groupBase 3 [3, 0, 2].mergeSort ∧
      (member [3, 0, 2] 2 5).testBit 2 = true ∧
      WordIndex.ExactMember [3, 0, 2] 2 5 ∧
      ∃ g r, g < 4 ∧ r < 8 ∧ member [3, 0, 2] g r = 19 := by
  have hn : dimension? 5 = some (2 ^ 5) := by decide
  have hd : [3, 0, 2].Nodup := by decide
  rcases groups_enumerated hn hd (by decide) with ⟨hbij, hmono, hmembers, -⟩
  rcases hmembers 2 5 (by decide) (by decide) with ⟨-, hbits, -, hexact⟩
  rcases hbij.surjOn (show 19 < 2 ^ 5 by decide) with ⟨⟨g, r⟩, ⟨hg, hr⟩, hmember⟩
  exact ⟨hn, hmono (by decide), hbits 2 (by decide), hexact, g, r, hg, hr, hmember⟩

end Statevector

end QubitLab
