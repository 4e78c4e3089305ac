import Mathlib.Algebra.Ring.Int.Defs
import QubitLab.Proofs.Statevector.Sums

/-!
# The kernels, access by access

What a kernel computes is a function of the amplitudes before it. That this is so although
the buffer is overwritten on the way has a reason, and this module states it: in the list of
all accesses of the kernel a place that has been written does not come up again. So nothing is
read after it was overwritten, nothing is written twice, and the order of the groups does not
matter. Every access is inside of the buffer, so the run that checks each index goes through.

A kernel updates one group of indices after the other, and reads all places of a group that it
writes before it writes the first of them. No two groups have an index in common. This is all
that is needed: `orderly_walk` makes an orderly walk of any updates that stay inside their
groups. The groups that fail the controls are passed over, and an exchange leaves the places
alone at which the two qubits agree, so what is written is given as a condition on the index.

No law of arithmetic is used, so all of this holds of rounded amplitudes too, bit for bit.

## Main definitions

* `Access.inPlace`: Places that are all read before they are written.
* `Orderly`: The accesses are inside the buffer, and the last ones to a place are writes that
  are not repeated.
* `bases`: The least indices of the groups of a walk.
* `Kernel.Computes`: A kernel computes a function of the amplitudes by orderly accesses.

## Theorems

* `accesses_onPair`, `accesses_exchange`, `accesses_onGroup`: The accesses to a single group.
* `accesses_walk`: The accesses of a walk.
* `mem_bases_iff`, `nodup_bases`: The walk gets to every group once.
* `orderly_walk`: A walk is orderly when its updates stay inside their groups.
* `computes_of_orderly`: Orderly accesses pass the checks.
* `kernels_compute`: What the kernels compute, and how.
-/

namespace QubitLab

namespace Rows

variable {K : Type} [Zero K] [Add K] [Mul K]

omit [Zero K] in
/-- A row against a column is a sum of products from the left. -/
theorem dotFrom_eq_foldl (u v : List K) (start : K) :
    dotFrom start u v = (u.zip v).foldl (fun acc p => acc + p.1 * p.2) start := by
  induction u generalizing v start with
  | nil => rfl
  | cons a u ih =>
      cases v with
      | nil => rfl
      | cons b v => exact ih v (start + a * b)

/-- A row against values over a range, as a sum from the left. -/
theorem dot_map_range {row : List K} {side : Nat} (hrow : row.length = side) (φ : Nat → K) :
    dot row ((List.range side).map φ)
      = (List.range side).foldl (fun acc c => acc + row.getD c 0 * φ c) 0 := by
  have hself : row = (List.range side).map fun c => row.getD c 0 := by
    refine List.ext_getElem (by rw [List.length_map, List.length_range, hrow]) fun c hc _ => ?_
    rw [List.getElem_map, List.getElem_range, List.getD_eq_getElem?_getD,
      List.getElem?_eq_getElem hc, Option.getD_some]
  rw [dot, dotFrom_eq_foldl]
  conv => lhs; rw [hself]
  rw [List.zip_map', List.foldl_map]

end Rows

/-- Accesses to some places: all of them are read, and then all of them are written. -/
def Access.inPlace (places : List Nat) : List Access := places.map .read ++ places.map .write

namespace Access

theorem index_mem_of_mem_inPlace {places : List Nat} {a : Access} (h : a ∈ inPlace places) :
    a.index ∈ places := by
  rcases List.mem_append.mp h with h | h
  · rcases List.mem_map.mp h with ⟨i, hi, rfl⟩
    exact hi
  · rcases List.mem_map.mp h with ⟨i, hi, rfl⟩
    exact hi

theorem write_mem_inPlace_iff {places : List Nat} {i : Nat} :
    write i ∈ inPlace places ↔ i ∈ places := by
  rw [inPlace, List.mem_append, List.mem_map, List.mem_map]
  constructor
  · rintro (⟨j, -, h⟩ | ⟨j, hj, h⟩)
    · exact absurd h (by simp only [reduceCtorEq, not_false_eq_true])
    · injection h with h
      exact h ▸ hj
  · exact fun hi => Or.inr ⟨i, hi, rfl⟩

/-- No place is accessed after it has been written, unless it is listed twice. -/
theorem pairwise_inPlace {places : List Nat} (h : places.Nodup) :
    (inPlace places).Pairwise fun a b => ∀ i, a = .write i → b.index ≠ i := by
  rw [inPlace, List.pairwise_append, List.pairwise_map, List.pairwise_map]
  refine ⟨List.pairwise_of_forall fun _ _ i hi => ?_, ?_, fun a ha b _ i hi => ?_⟩
  · exact absurd hi (by simp only [reduceCtorEq, not_false_eq_true])
  · refine h.imp fun hne i hi => ?_
    injection hi with hi
    exact fun h => hne (hi.trans h.symm)
  · -- All the reads come before the writes.
    rcases List.mem_map.mp ha with ⟨j, -, rfl⟩
    exact absurd hi (by simp only [reduceCtorEq, not_false_eq_true])

end Access

namespace Buffer

open Statevector

section Walks

variable {n : Nat} {sorted : List Nat}

/-- The accesses are inside the buffer, a place that has been written is not accessed again,
    and the places that are written are the ones that are to be updated. -/
structure Orderly (n : Nat) (updated : Nat → Prop) (trace : List Access) : Prop where
  /-- No access is out of bounds. -/
  inBounds : ∀ a ∈ trace, a.index < 2 ^ n
  /-- What has been written is neither read nor written again. -/
  once : trace.Pairwise fun a b => ∀ i, a = .write i → b.index ≠ i
  /-- Nothing is skipped, and nothing else is written. -/
  complete : ∀ i, i < 2 ^ n → (Access.write i ∈ trace ↔ updated i)

/-- The least indices of so many groups. -/
def bases (sorted : List Nat) (count : Nat) : List Nat :=
  (List.range count).map fun k => groupBase k sorted

/-- The least indices below the size are those that have no bit of the group set. -/
theorem mem_bases_iff (hs : sorted.Pairwise (· < ·)) (hn : ∀ q ∈ sorted, q < n) {base : Nat} :
    base ∈ bases sorted (2 ^ n >>> sorted.length) ↔ base < 2 ^ n ∧ clear sorted base = base := by
  rw [bases, List.mem_map, shiftRight_length hs hn]
  constructor
  · rintro ⟨k, hk, rfl⟩
    exact ⟨groupBase_lt hs hn (List.mem_range.mp hk), clear_groupBase hs k⟩
  · rintro ⟨hlt, hclear⟩
    refine ⟨owner sorted base, List.mem_range.mpr (owner_lt hs hn hlt), ?_⟩
    rw [groupBase_owner hs, hclear]

/-- Different groups have different least indices. -/
theorem nodup_bases (sorted : List Nat) (count : Nat) : (bases sorted count).Nodup := by
  rw [bases, List.Nodup, List.pairwise_map]
  refine List.nodup_range.imp fun {k l} hne heq => hne ?_
  rw [← owner_groupBase sorted k, heq, owner_groupBase]

end Walks

end Buffer

namespace Kernel

open Statevector Buffer

variable {K : Type} [Zero K]

section Groups

/-- Both members of a pair are read before the first one is written. -/
theorem accesses_onPair [Add K] [Mul K] (m : Matrix2 K) (i j : Nat) (s : Buffer K) :
    (onPair m i j).accesses s = Access.inPlace [i, j] := rfl

theorem accesses_exchange (i j : Nat) (s : Buffer K) :
    (exchange i j).accesses s = Access.inPlace [i, j] := rfl

/-- All members of a group are read, and then those are written for which there is a row. -/
theorem accesses_onGroup [Add K] [Mul K] {m : Rows K} {offsets : List Nat}
    (hm : offsets.length ≤ m.length) (base : Nat) (s : Buffer K) :
    (onGroup m offsets base).accesses s
      = Access.inPlace (offsets.map fun offset => base + offset) := by
  have hset : ∀ (old : List K) (p : List K × Nat) (u : Buffer K),
      (set (base + p.2) (Rows.dot p.1 old)).accesses u = [.write (base + p.2)] :=
    fun old p u => rfl
  have hwrites : (offsets.map fun offset => base + offset).map .write
      = (m.zip offsets).flatMap fun p => [Access.write (base + p.2)] := by
    conv => lhs; rw [← List.map_snd_zip hm, List.map_map, List.map_map]
    exact List.map_eq_flatMap
  unfold onGroup
  rw [accesses_bind, accesses_getAll, run_getAll, accesses_forM (hset _), ← hwrites]
  rfl

end Groups

section Walks

variable {n : Nat} {sorted : List Nat} {visited : Nat → Bool} {body : Nat → Kernel K Unit}
  {places : Nat → List Nat} {updated : Nat → Prop}

/-- A walk accesses the groups that it visits, one after the other. -/
theorem accesses_walk (hbody : ∀ base s, (body base).accesses s = Access.inPlace (places base))
    (count : Nat) (s : Buffer K) :
    (walk sorted visited body count).accesses s
      = ((bases sorted count).filter visited).flatMap fun base =>
          Access.inPlace (places base) := by
  have hstep : ∀ k s, (if visited (groupBase k sorted) then body (groupBase k sorted)
      else return ()).accesses s
        = if visited (groupBase k sorted) then Access.inPlace (places (groupBase k sorted))
          else [] := by
    intro k s
    split
    · exact hbody _ s
    · rfl
  rw [walk, accesses_forM hstep, bases]
  -- A group that is passed over adds nothing on either side.
  induction List.range count with
  | nil => rfl
  | cons k rest ih =>
      rw [List.flatMap_cons, ih, List.map_cons]
      by_cases hv : visited (groupBase k sorted) = true
      · rw [if_pos hv, List.filter_cons_of_pos hv, List.flatMap_cons]
      · rw [if_neg hv, List.filter_cons_of_neg hv, List.nil_append]

/-- A walk is orderly when each of its updates stays inside of its group and has no place
    twice. -/
theorem orderly_walk (hs : sorted.Pairwise (· < ·)) (hn : ∀ q ∈ sorted, q < n)
    (hbody : ∀ base s, (body base).accesses s = Access.inPlace (places base))
    (hinside : ∀ base, base < 2 ^ n → clear sorted base = base →
      ∀ i ∈ places base, clear sorted i = base)
    (honce : ∀ base, base < 2 ^ n → clear sorted base = base → (places base).Nodup)
    (hupdated : ∀ i, i < 2 ^ n →
      (visited (clear sorted i) = true ∧ i ∈ places (clear sorted i) ↔ updated i))
    (s : Buffer K) :
    Orderly n updated ((walk sorted visited body (2 ^ n >>> sorted.length)).accesses s) := by
  have hbase : ∀ base ∈ (bases sorted (2 ^ n >>> sorted.length)).filter visited,
      base < 2 ^ n ∧ clear sorted base = base := fun base h =>
    (mem_bases_iff hs hn).mp (List.mem_filter.mp h).1
  -- Each access tells the group for which it was made.
  have haccess : ∀ base ∈ (bases sorted (2 ^ n >>> sorted.length)).filter visited,
      ∀ a ∈ Access.inPlace (places base), a.index < 2 ^ n ∧ clear sorted a.index = base := by
    intro base h a ha
    rcases hbase base h with ⟨hlt, hclear⟩
    have hgroup := hinside base hlt hclear _ (Access.index_mem_of_mem_inPlace ha)
    exact ⟨lt_of_clear_lt hn (hgroup.symm ▸ hlt), hgroup⟩
  rw [accesses_walk hbody]
  refine ⟨fun a ha => ?_, ?_, fun i hi => ?_⟩
  · rcases List.mem_flatMap.mp ha with ⟨base, h, ha⟩
    exact (haccess base h a ha).1
  · rw [List.pairwise_flatMap]
    constructor
    · intro base h
      rcases hbase base h with ⟨hlt, hclear⟩
      exact Access.pairwise_inPlace (honce base hlt hclear)
    · -- Different updates have different groups.
      refine ((nodup_bases sorted _).filter visited).imp_of_mem fun {base base'} h h' hne => ?_
      intro a ha b hb i hi heq
      refine hne ?_
      rw [← (haccess base h a ha).2, ← (haccess base' h' b hb).2, heq, hi]
      rfl
  · rw [List.mem_flatMap, ← hupdated i hi]
    constructor
    · rintro ⟨base, h, hwrite⟩
      have hclear : clear sorted i = base := (haccess base h _ hwrite).2
      rw [hclear]
      exact ⟨(List.mem_filter.mp h).2, Access.write_mem_inPlace_iff.mp hwrite⟩
    · rintro ⟨hvisited, htarget⟩
      refine ⟨clear sorted i, List.mem_filter.mpr ⟨(mem_bases_iff hs hn).mpr ?_, hvisited⟩,
        Access.write_mem_inPlace_iff.mpr htarget⟩
      exact ⟨clear_lt hi _, clear_clear sorted i⟩

end Walks

end Kernel

namespace Buffer

open Statevector

section Kernels

variable {K : Type} [Zero K] [Add K] [Mul K] {n : Nat} {updated : Nat → Prop}

/-- The kernel `p` makes `t` of the buffer `s`, also when every index is checked. At each
    index this is a function of the amplitudes of `s`, and the accesses are orderly. -/
structure Computes (n : Nat) (act : (Nat → K) → Nat → K) (updated : Nat → Prop)
    (p : Kernel K Unit) (s t : Buffer K) : Prop where
  /-- There are as many amplitudes as before. -/
  size : t.size = s.size
  /-- Each amplitude is a function of the ones before. -/
  amplitude : ∀ i, i < 2 ^ n → t.amplitude i = act s.amplitude i
  /-- The run that stops at an index out of bounds goes through. -/
  checked : p.checked s = some ((), t)
  /-- The accesses of the run are orderly. -/
  orderly : Orderly n updated (p.accesses s)

omit [Add K] [Mul K] in
/-- Orderly accesses pass the checks. -/
theorem computes_of_orderly {act : (Nat → K) → Nat → K} {p : Kernel K Unit} {s : Buffer K}
    (hbuf : s.size = 2 ^ n) (hamplitude : ∀ i, i < 2 ^ n → (p.after s).amplitude i
      = act s.amplitude i) (horderly : Orderly n updated (p.accesses s)) :
    Computes n act updated p s (p.after s) where
  size := p.size_after s
  amplitude := hamplitude
  checked := Kernel.checked_eq_some fun a ha => hbuf.symm ▸ horderly.inBounds a ha
  orderly := horderly

/-- What a matrix over several qubits does to the amplitudes `ψ`: the row that the bits of
    the qubits make up, against the amplitudes with these bits set to those of the column,
    added from the left. -/
def denseSum (qubits : List Nat) (m : Rows K) (ψ : Nat → K) (i : Nat) : K :=
  (List.range (2 ^ qubits.length)).foldl
    (fun acc c => acc + (m.getD (gather qubits i) []).getD c 0 * ψ (place qubits i c)) 0

omit [Zero K] [Add K] [Mul K] in
/-- A pair is a group. -/
theorem mem_pair_iff {target base i : Nat} (hclear : clear [target] base = base) :
    i ∈ [base, base ||| (1 <<< target)] ↔ clear [target] i = base := by
  have hzero : ∀ j, clear [target] j = withBit j target false := fun j => rfl
  rw [hzero] at hclear ⊢
  rw [or_one_shiftLeft, List.mem_cons, List.mem_singleton]
  constructor
  · rintro (rfl | rfl)
    · exact hclear
    · rw [withBit_withBit, hclear]
  · rintro rfl
    cases hbit : i.testBit target with
    | true => exact Or.inr (by rw [withBit_withBit, withBit_of_testBit hbit])
    | false => exact Or.inl (withBit_of_testBit hbit).symm

/-- A matrix under controls updates the pairs in which they are all set, and no others. -/
theorem computes_applyControlled {controls : List Nat} {target : Nat} (hc : target ∉ controls)
    (ht : target < n) (m : Matrix2 K) {s : Buffer K} (hbuf : s.size = 2 ^ n) :
    Computes n (underControls controls (pairAct target m))
      (fun i => controls.all i.testBit = true) (Kernel.controlled s.size controls target m) s
      (s.applyControlled controls target m) := by
  have hs : [target].Pairwise (· < ·) := List.pairwise_singleton _ _
  have hn : ∀ q ∈ [target], q < n := List.forall_mem_singleton.mpr ht
  have hout : ∀ q ∈ controls, q ∉ [target] := fun q hq h => hc (List.mem_singleton.mp h ▸ hq)
  refine computes_of_orderly hbuf (fun i hi => amplitude_applyControlled hc ht m hbuf hi) ?_
  -- What is left to say is what happens to a single pair.
  rw [controlled_eq_walk, hbuf]
  refine Kernel.orderly_walk hs hn
    (fun base => Kernel.accesses_onPair m base (base ||| (1 <<< target)))
    (fun base hbase hclear i hi => (mem_pair_iff hclear).mp hi) (fun base hbase hclear => ?_)
    (fun i hi => ?_) s
  · -- The target is clear in the first index and set in the second one.
    have hapart : base ≠ base ||| (1 <<< target) := by
      rw [or_one_shiftLeft]
      refine ne_withBit ?_ base
      rw [← hclear, testBit_clear, if_pos List.mem_cons_self]
      exact Bool.false_ne_true
    exact List.nodup_cons.mpr ⟨fun h => hapart (List.mem_singleton.mp h),
      List.pairwise_singleton _ _⟩
  · rw [covers_clear hout]
    exact and_iff_left ((mem_pair_iff (clear_clear _ i)).mpr rfl)

/-- A matrix without controls updates every pair. -/
theorem computes_applyMatrix {target : Nat} (ht : target < n) (m : Matrix2 K) {s : Buffer K}
    (hbuf : s.size = 2 ^ n) :
    Computes n (pairAct target m) (fun _ => True) (Kernel.matrix s.size target m) s
      (s.applyMatrix target m) := by
  -- The accesses are those of the same matrix under no controls.
  have h := (computes_applyControlled List.not_mem_nil ht m hbuf).orderly
  rw [controlled_nil] at h
  exact computes_of_orderly hbuf (fun i hi => amplitude_applyMatrix ht m hbuf hi)
    ⟨h.inBounds, h.once, fun i hi => (h.complete i hi).trans (iff_true_intro rfl)⟩

omit [Zero K] [Add K] [Mul K] in
/-- The two places that an exchange writes are the members of a group at which the qubits
    differ. -/
theorem mem_swap_iff {a b base i : Nat} (hab : a ≠ b) (hclear : clear [a, b] base = base) :
    i ∈ [base ||| (1 <<< a), base ||| (1 <<< b)] ↔
      clear [a, b] i = base ∧ i.testBit a ≠ i.testBit b := by
  have hempty : ∀ p ∈ [a, b], base.testBit p = false := by
    intro p hp
    rw [← hclear, testBit_clear, if_pos hp]
  have ha := hempty a List.mem_cons_self
  have hb := hempty b (List.mem_cons_of_mem a List.mem_cons_self)
  have hmember : ∀ p ∈ [a, b], clear [a, b] (withBit base p true) = base := by
    intro p hp
    rw [← hclear, clear_eq_clear]
    intro q hq
    have hne : q ≠ p := fun h => hq (h ▸ hp)
    rw [testBit_withBit_ne hne, hclear]
  rw [or_one_shiftLeft, or_one_shiftLeft, List.mem_cons, List.mem_singleton]
  constructor
  · rintro (rfl | rfl)
    · refine ⟨hmember a List.mem_cons_self, ?_⟩
      rw [testBit_withBit_self, testBit_withBit_ne hab.symm, hb]
      exact Bool.true_eq_false.mp
    · refine ⟨hmember b (List.mem_cons_of_mem a List.mem_cons_self), ?_⟩
      rw [testBit_withBit_self, testBit_withBit_ne hab, ha]
      exact Bool.false_ne_true
  · rintro ⟨hi, hdiffer⟩
    cases hia : i.testBit a with
    | true =>
        have hib : i.testBit b = false := by
          rw [hia] at hdiffer
          exact Bool.eq_false_iff.mpr hdiffer.symm
        exact Or.inl (exchange_of_clear hi hia hib).1
    | false =>
        have hib : i.testBit b = true := by
          rw [hia] at hdiffer
          exact (Bool.not_eq_false _).mp hdiffer.symm
        -- The same with the two qubits in the other order.
        have hi' : clear [b, a] i = base :=
          (clear_congr (fun q => (List.Perm.swap a b []).mem_iff) i).trans hi
        exact Or.inr (exchange_of_clear hi' hib hia).1

omit [Add K] [Mul K] in
/-- An exchange under controls updates the places at which the two qubits differ. -/
theorem computes_applySwap {controls : List Nat} {a b : Nat} (hab : a ≠ b) (ha : a ∉ controls)
    (hb : b ∉ controls) (han : a < n) (hbn : b < n) {s : Buffer K} (hbuf : s.size = 2 ^ n) :
    Computes n (underControls controls (swapAct a b))
      (fun i => controls.all i.testBit = true ∧ i.testBit a ≠ i.testBit b)
      (Kernel.swap s.size controls a b) s (s.applySwap controls a b) := by
  have hpair : ∀ {q}, q ∈ [a, b].mergeSort ↔ q = a ∨ q = b := by
    intro q
    rw [mem_mergeSort_iff, List.mem_cons, List.mem_singleton]
  have hsort : ∀ j, clear [a, b].mergeSort j = clear [a, b] j :=
    clear_congr fun q => mem_mergeSort_iff
  have hs : [a, b].mergeSort.Pairwise (· < ·) :=
    pairwise_mergeSort (List.nodup_cons.mpr
      ⟨fun h => hab (List.mem_singleton.mp h), List.pairwise_singleton _ b⟩)
  have hn : ∀ q ∈ [a, b].mergeSort, q < n := fun q hq =>
    (hpair.mp hq).elim (fun h => h ▸ han) fun h => h ▸ hbn
  have hout : ∀ q ∈ controls, q ∉ [a, b].mergeSort := fun q hq h =>
    (hpair.mp h).elim (fun h => ha (h ▸ hq)) fun h => hb (h ▸ hq)
  -- The two places that are written have different bits at the second qubit.
  have hapart : ∀ base, clear [a, b].mergeSort base = base →
      base ||| (1 <<< a) ≠ base ||| (1 <<< b) := by
    intro base hclear
    rw [or_one_shiftLeft, or_one_shiftLeft]
    refine ne_withBit ?_ base
    rw [testBit_withBit_ne hab.symm, ← hclear, testBit_clear, if_pos (hpair.mpr (Or.inr rfl))]
    exact Bool.false_ne_true
  refine computes_of_orderly hbuf
    (fun i hi => amplitude_applySwap hab ha hb han hbn hbuf hi) ?_
  rw [swap_eq_walk, hbuf]
  refine Kernel.orderly_walk hs hn
    (fun base => Kernel.accesses_exchange (base ||| (1 <<< a)) (base ||| (1 <<< b)))
    (fun base hbase hclear i hi => ?_) (fun base hbase hclear => ?_) (fun i hi => ?_) s
  · rw [hsort] at hclear ⊢
    exact ((mem_swap_iff hab hclear).mp hi).1
  · exact List.nodup_cons.mpr ⟨fun h => hapart base hclear (List.mem_singleton.mp h),
      List.pairwise_singleton _ _⟩
  · rw [covers_clear hout, hsort]
    exact and_congr_right fun _ =>
      (mem_swap_iff hab (clear_clear _ i)).trans (and_iff_right rfl)

omit [Zero K] [Add K] [Mul K] in
/-- The offsets reach the members of a group. -/
theorem mem_group_iff {qubits : List Nat} (hd : qubits.Nodup) {base i : Nat}
    (hclear : clear qubits base = base) :
    i ∈ (groupOffsets qubits).map (fun offset => base + offset) ↔ clear qubits i = base := by
  have hplace : ∀ r, base + groupOffset qubits r = place qubits base r := by
    intro r
    rw [place, hclear]
  rw [groupOffsets, List.map_map, List.mem_map]
  constructor
  · rintro ⟨r, -, rfl⟩
    rw [Function.comp_apply, hplace, clear_place hd, hclear]
  · rintro rfl
    refine ⟨gather qubits i, List.mem_range.mpr ?_, ?_⟩
    · rw [Nat.one_shiftLeft]
      exact gather_lt qubits i
    · rw [Function.comp_apply, hplace]
      exact place_gather_of_clear hd (clear_clear qubits i).symm

/-- A matrix over several qubits updates every group, each with sums from the left. -/
theorem computes_applyDense {qubits : List Nat} (hd : qubits.Nodup) (hq : ∀ q ∈ qubits, q < n)
    {m : Rows K} (hm : m.length = 2 ^ qubits.length)
    (hrows : ∀ row ∈ m, row.length = 2 ^ qubits.length) {s : Buffer K} (hbuf : s.size = 2 ^ n) :
    Computes n (denseSum qubits m) (fun _ => True) (Kernel.dense s.size qubits m) s
      (s.applyDense qubits m) := by
  have hsort : ∀ j, clear qubits.mergeSort j = clear qubits j :=
    clear_congr fun q => mem_mergeSort_iff
  have hs := pairwise_mergeSort hd
  have hn : ∀ q ∈ qubits.mergeSort, q < n := fun q h => hq q (mem_mergeSort_iff.mp h)
  -- There is a row for each member of a group, so none of them goes without.
  have hoffsets : (groupOffsets qubits).length ≤ m.length := by
    rw [groupOffsets, List.length_map, List.length_range, Nat.one_shiftLeft, hm]
  refine computes_of_orderly hbuf (fun i hi => ?_) ?_
  · have hlt : gather qubits i < m.length := hm ▸ gather_lt qubits i
    have hrow : (m.getD (gather qubits i) []).length = 2 ^ qubits.length := by
      rw [List.getD_eq_getElem?_getD, List.getElem?_eq_getElem hlt]
      exact hrows _ (List.getElem_mem hlt)
    refine (amplitude_applyDense hd hq hm hbuf hi).trans ?_
    rw [denseAct, Nat.one_shiftLeft, Rows.dot_map_range hrow]
    rfl
  rw [dense_eq_walk, hbuf]
  refine Kernel.orderly_walk hs hn (Kernel.accesses_onGroup hoffsets)
    (fun base hbase hclear i hi => ?_) (fun base hbase hclear => ?_) (fun i hi => ?_) s
  · rw [hsort] at hclear ⊢
    exact (mem_group_iff hd hclear).mp hi
  · rw [List.Nodup, List.pairwise_map]
    exact (groupOffsets_nodup hd).imp fun hne heq => hne (Nat.add_left_cancel heq)
  · rw [hsort]
    exact iff_true_intro ⟨rfl, (mem_group_iff hd (clear_clear qubits i)).mpr rfl⟩

/-- What the kernels compute. A matrix on a qubit takes each pair through it, and so it does
    under controls where all of them are set. An exchange moves each amplitude to where the
    two qubits have changed places. A matrix over several qubits takes each group through it,
    with sums from the left. Each of them goes through when all indices are checked, and its
    accesses are orderly: none is out of bounds, no place is read or written after it has been
    written, and exactly those places are written that are to be updated. -/
theorem kernels_compute {s : Buffer K} (hbuf : s.size = 2 ^ n) :
    (∀ (target : Nat) (m : Matrix2 K), target < n →
      Computes n (pairAct target m) (fun _ => True) (Kernel.matrix s.size target m) s
        (s.applyMatrix target m)) ∧
    (∀ (controls : List Nat) (target : Nat) (m : Matrix2 K), target ∉ controls → target < n →
      Computes n (underControls controls (pairAct target m))
        (fun i => controls.all i.testBit = true) (Kernel.controlled s.size controls target m) s
        (s.applyControlled controls target m)) ∧
    (∀ (controls : List Nat) (a b : Nat), a ≠ b → a ∉ controls → b ∉ controls → a < n → b < n →
      Computes n (underControls controls (swapAct a b))
        (fun i => controls.all i.testBit = true ∧ i.testBit a ≠ i.testBit b)
        (Kernel.swap s.size controls a b) s (s.applySwap controls a b)) ∧
    (∀ (qubits : List Nat) (m : Rows K), qubits.Nodup → (∀ q ∈ qubits, q < n) →
      m.length = 2 ^ qubits.length → (∀ row ∈ m, row.length = 2 ^ qubits.length) →
      Computes n (denseSum qubits m) (fun _ => True) (Kernel.dense s.size qubits m) s
        (s.applyDense qubits m)) :=
  ⟨fun _ m ht => computes_applyMatrix ht m hbuf,
    fun _ _ m hc ht => computes_applyControlled hc ht m hbuf,
    fun _ _ _ hab ha hb han hbn => computes_applySwap hab ha hb han hbn hbuf,
    fun _ _ hd hq hm hrows => computes_applyDense hd hq hm hrows hbuf⟩

/-- Eight amplitudes that are whole numbers. -/
def octet : Buffer Int := #[1, 2, 3, 4, 5, 6, 7, 8]

/-- A matrix over two qubits, with a row that adds and one that subtracts. -/
def mixing : Rows Int := [[1, 0, 0, 0], [0, 1, 1, 0], [0, 1, -1, 0], [0, 0, 0, 1]]

theorem kernels_compute_octet :
    octet.size = 2 ^ 3 ∧ (octet.applyMatrix 1 ⟨1, 1, 1, -1⟩).amplitude 3 = 2 - 4 ∧
      (octet.applyControlled [0] 2 ⟨0, 1, 1, 0⟩).amplitude 1 = 6 ∧
      (Kernel.controlled 8 [0] 2 ⟨0, 1, 1, 0⟩).accesses octet
        = [.read 1, .read 5, .write 1, .write 5, .read 3, .read 7, .write 3, .write 7] ∧
      (octet.applySwap [1] 2 0).amplitude 3 = 7 ∧
      (octet.applyDense [2, 0] mixing).amplitude 4 = 2 + 5 ∧
      (Kernel.dense 8 [2, 0] mixing).checked octet = some ((), octet.applyDense [2, 0] mixing) ∧
      Orderly 3 (fun _ => True) ((Kernel.dense 8 [2, 0] mixing).accesses octet) := by
  rcases kernels_compute (n := 3) (s := octet) rfl with ⟨hmatrix, hcontrolled, hswap, hdense⟩
  -- The qubits are not in order, and the second one has the lower position.
  have hmixed := hdense [2, 0] mixing (by decide) (by decide) rfl (by decide)
  refine ⟨rfl, ?_, ?_, by decide, ?_, ?_, hmixed.checked, hmixed.orderly⟩
  · exact (hmatrix 1 _ (by decide)).amplitude 3 (by decide)
  · exact (hcontrolled [0] 2 _ (by decide) (by decide)).amplitude 1 (by decide)
  · exact (hswap [1] 2 0 (by decide) (by decide) (by decide) (by decide) (by decide)).amplitude 3
      (by decide)
  · exact hmixed.amplitude 4 (by decide)

end Kernels

end Buffer

end QubitLab
