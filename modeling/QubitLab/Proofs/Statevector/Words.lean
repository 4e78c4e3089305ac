import QubitLab.Proofs.Statevector.Groups
import QubitLab.Statevector.WordIndex

/-!
# Indices that fit into words

Machine words lose what is shifted out at the top, and their sums wrap around. This
module says when neither happens, so that a word form has the value of the function on
numbers that it stands for.

A single bit is never lost, as long as its position is below the width of a word, and
joining words bit by bit loses nothing at all. Putting in a zero does move bits up, but
what is computed on the way is never greater than the result. So it is enough that the
result fits. The weights of distinct positions add up without carries, so the last of
their partial sums is an index of the register as well as the first.

## Main definitions

* `WordIndex.ExactInsertion`: Each operation of putting in a zero has the value that it
  has on numbers.

## Theorems

* `toNat_single`, `hasBit_eq_testBit`: Single bits.
* `exactInsertion`, `groupBase_ofNat`: Zeros that are put in.
* `toNat_sum`, `toNat_groupOffset`: Sums of weights.
* `toNat_basisIndex`: Bits that are joined.
-/

namespace QubitLab

namespace WordIndex

section Positions

theorem toNat_ofNat {k : Nat} (hk : k < 2 ^ 64) : (UInt64.ofNat k).toNat = k :=
  UInt64.toNat_ofNat_of_lt' hk

theorem toNat_position {q : Nat} (hq : q < 64) : (UInt64.ofNat q).toNat = q :=
  toNat_ofNat (hq.trans (by decide))

/-- A distance below the width of a word is taken as it is. -/
theorem toNat_position_mod {q : Nat} (hq : q < 64) : (UInt64.ofNat q).toNat % 64 = q := by
  rw [toNat_position hq, Nat.mod_eq_of_lt hq]

theorem one_shiftLeft_lt {q : Nat} (hq : q < 64) : 1 <<< q < 2 ^ 64 := by
  rw [Nat.one_shiftLeft]
  exact Nat.pow_lt_pow_right (by decide) hq

theorem toNat_shiftRight_position (w : UInt64) {q : Nat} (hq : q < 64) :
    (w >>> UInt64.ofNat q).toNat = w.toNat >>> q := by
  rw [UInt64.toNat_shiftRight, toNat_position_mod hq]

theorem toNat_single {q : Nat} (hq : q < 64) : (single (UInt64.ofNat q)).toNat = 1 <<< q := by
  rw [single, UInt64.toNat_shiftLeft, toNat_position_mod hq]
  exact Nat.mod_eq_of_lt (one_shiftLeft_lt hq)

/-- The places below a position are the number before its weight. -/
theorem toNat_single_sub_one {q : Nat} (hq : q < 64) :
    (single (UInt64.ofNat q) - 1).toNat = (1 <<< q) - 1 := by
  have hone : (1 : UInt64) ≤ single (UInt64.ofNat q) := by
    rw [UInt64.le_iff_toNat_le, toNat_single hq, Nat.one_shiftLeft]
    exact Nat.one_le_two_pow
  rw [UInt64.toNat_sub_of_le _ _ hone, toNat_single hq]
  rfl

/-- The bits of a word are those of its value. -/
theorem hasBit_eq_testBit (w : UInt64) {q : Nat} (hq : q < 64) :
    hasBit w (UInt64.ofNat q) = w.toNat.testBit q := by
  have hword : ((w >>> UInt64.ofNat q) &&& 1).toNat = w.toNat >>> q % 2 := by
    rw [UInt64.toNat_and, toNat_shiftRight_position w hq]
    exact Nat.and_two_pow_sub_one_eq_mod _ 1
  rw [hasBit, Nat.testBit_eq_decide_div_mod_eq, ← Nat.shiftRight_eq_div_pow, ← hword,
    Bool.eq_iff_iff, beq_iff_eq, decide_eq_true_iff, ← UInt64.toNat_inj]
  rfl

end Positions

section Insertion

/-- Each shift, mask and union by which a zero is put in has on words the value that it has
    on numbers. -/
structure ExactInsertion (k bit : Nat) : Prop where
  /-- The number itself fits. -/
  number : (UInt64.ofNat k).toNat = k
  /-- What is above the position is shifted down. -/
  above : (UInt64.ofNat k >>> UInt64.ofNat bit).toNat = k >>> bit
  /-- The distance by which it is shifted up again. -/
  distance : (UInt64.ofNat bit + 1).toNat = bit + 1
  /-- It is shifted up by one place more. -/
  raised : ((UInt64.ofNat k >>> UInt64.ofNat bit) <<< (UInt64.ofNat bit + 1)).toNat
    = (k >>> bit) <<< (bit + 1)
  /-- The position as a weight. -/
  weight : (single (UInt64.ofNat bit)).toNat = 1 <<< bit
  /-- All places below the position. -/
  mask : (single (UInt64.ofNat bit) - 1).toNat = (1 <<< bit) - 1
  /-- What is below the position. -/
  below : (UInt64.ofNat k &&& (single (UInt64.ofNat bit) - 1)).toNat = k &&& ((1 <<< bit) - 1)
  /-- The two together. -/
  result : (insertZeroBit (UInt64.ofNat k) (UInt64.ofNat bit)).toNat
    = Statevector.insertZeroBit k bit

/-- Nothing on the way to the result is greater than the result. -/
theorem exactInsertion {k bit : Nat} (hbit : bit < 63)
    (hfits : Statevector.insertZeroBit k bit < 2 ^ 64) : ExactInsertion k bit := by
  -- The number and what is shifted up are both below the result, which fits.
  have hk : k < 2 ^ 64 :=
    ((Statevector.strictMono_insertZeroBit bit).le_apply).trans_lt hfits
  have hraised : (k >>> bit) <<< (bit + 1) < 2 ^ 64 := Nat.left_le_or.trans_lt hfits
  have hnumber := toNat_ofNat hk
  have habove : (UInt64.ofNat k >>> UInt64.ofNat bit).toNat = k >>> bit := by
    rw [toNat_shiftRight_position _ (by omega), hnumber]
  have hdistance : (UInt64.ofNat bit + 1).toNat = bit + 1 := by
    rw [UInt64.toNat_add, toNat_position (by omega), UInt64.toNat_one]
    exact Nat.mod_eq_of_lt (by omega)
  have hup : ((UInt64.ofNat k >>> UInt64.ofNat bit) <<< (UInt64.ofNat bit + 1)).toNat
      = (k >>> bit) <<< (bit + 1) := by
    rw [UInt64.toNat_shiftLeft, habove, hdistance, Nat.mod_eq_of_lt (show bit + 1 < 64 by omega),
      Nat.mod_eq_of_lt hraised]
  have hmask := toNat_single_sub_one (show bit < 64 by omega)
  have hbelow : (UInt64.ofNat k &&& (single (UInt64.ofNat bit) - 1)).toNat
      = k &&& ((1 <<< bit) - 1) := by
    rw [UInt64.toNat_and, hnumber, hmask]
  refine ⟨hnumber, habove, hdistance, hup, toNat_single (by omega), hmask, hbelow, ?_⟩
  rw [insertZeroBit, UInt64.toNat_or, hup, hbelow, Statevector.insertZeroBit]

/-- The two indices of a pair are the same on words, when the zero can be put in. -/
theorem toNat_pairIndices {k target : Nat} (h : ExactInsertion k target) :
    (pairIndices (UInt64.ofNat k) (UInt64.ofNat target)).1.toNat
        = (Statevector.pairIndices k target).1 ∧
      (pairIndices (UInt64.ofNat k) (UInt64.ofNat target)).2.toNat
        = (Statevector.pairIndices k target).2 := by
  refine ⟨h.result, ?_⟩
  rw [pairIndices, UInt64.toNat_or, h.result, h.weight, Statevector.pairIndices]

/-- The zeros are put in one after the other, and the last result is the greatest. -/
theorem groupBase_ofNat {sorted : List Nat} {k : Nat} (hq : ∀ q ∈ sorted, q < 63)
    (hfits : Statevector.groupBase k sorted < 2 ^ 64) :
    groupBase (UInt64.ofNat k) (sorted.map UInt64.ofNat)
      = UInt64.ofNat (Statevector.groupBase k sorted) := by
  induction sorted generalizing k with
  | nil => rfl
  | cons q rest ih =>
      rw [Statevector.groupBase_cons] at hfits ⊢
      -- The zeros that are still to come only make the index greater.
      have hstep := (exactInsertion (hq q List.mem_cons_self)
        ((Statevector.le_groupBase _ rest).trans_lt hfits)).result
      rw [← ih (fun p hp => hq p (List.mem_cons_of_mem q hp)) hfits, ← hstep, UInt64.ofNat_toNat]
      rfl

/-- The least index of a group is the same on words, when it fits. -/
theorem toNat_groupBase {sorted : List Nat} {k : Nat} (hq : ∀ q ∈ sorted, q < 63)
    (hfits : Statevector.groupBase k sorted < 2 ^ 64) :
    (groupBase (UInt64.ofNat k) (sorted.map UInt64.ofNat)).toNat
      = Statevector.groupBase k sorted := by
  rw [groupBase_ofNat hq hfits, toNat_ofNat hfits]

end Insertion

section Sums

/-- A sum of words does not wrap around when the numbers add up to less than that. -/
theorem toNat_foldl_add {words : List UInt64} {start : UInt64}
    (h : start.toNat + (words.map UInt64.toNat).sum < 2 ^ 64) :
    (words.foldl (· + ·) start).toNat = start.toNat + (words.map UInt64.toNat).sum := by
  induction words generalizing start with
  | nil => rfl
  | cons w rest ih =>
      rw [List.map_cons, List.sum_cons, ← Nat.add_assoc] at h ⊢
      have hfirst : (start + w).toNat = start.toNat + w.toNat := by
        rw [UInt64.toNat_add]
        exact Nat.mod_eq_of_lt ((Nat.le_add_right _ _).trans_lt h)
      rw [List.foldl_cons, ih (hfirst ▸ h), hfirst]

/-- A sum of words has the value of the sum of their values, when that fits. -/
theorem toNat_sum {words : List UInt64} {numbers : List Nat}
    (hvalues : words.map UInt64.toNat = numbers) (hfits : numbers.sum < 2 ^ 64) :
    (words.foldl (· + ·) 0).toNat = numbers.sum := by
  subst hvalues
  rw [← Nat.zero_add (List.sum _), ← UInt64.toNat_zero] at hfits
  rw [toNat_foldl_add hfits, UInt64.toNat_zero, Nat.zero_add]

/-- The offset of a row is the same on words. -/
theorem toNat_groupOffset {qubits : List Nat} (hd : qubits.Nodup) (hq : ∀ q ∈ qubits, q < 64)
    (r : Nat) :
    (groupOffset (qubits.map UInt64.ofNat) r).toNat = Statevector.groupOffset qubits r := by
  refine toNat_sum ?_ (Statevector.groupOffset_lt hd hq r)
  -- Term by term, each weight is that of a position below the width of a word.
  rw [List.zipIdx_map, List.map_map, List.map_map]
  refine List.map_congr_left fun p hp => ?_
  have hp' : p.1 < 64 := hq p.1 (List.fst_mem_of_mem_zipIdx hp)
  simp only [Function.comp_apply, Prod.map_fst, Prod.map_snd, id_eq, apply_ite UInt64.toNat,
    toNat_single hp', UInt64.toNat_zero]

/-- The bits of a string are joined without any carry, so only their positions count. -/
theorem toNat_basisIndex {bits : List Bool} (hlen : bits.length ≤ 64) :
    (basisIndex bits).toNat = Statevector.basisIndex bits := by
  -- The fold is followed from any word that has been joined so far.
  have hfold : ∀ (l : List (Bool × Nat)) (acc : UInt64), (∀ p ∈ l, p.2 < 64) →
      (l.foldl (fun acc p => if p.1 then acc ||| single (UInt64.ofNat p.2) else acc) acc).toNat
        = l.foldl (fun acc p => if p.1 then acc ||| (1 <<< p.2) else acc) acc.toNat := by
    intro l
    induction l with
    | nil => exact fun _ _ => rfl
    | cons p rest ih =>
        intro acc hl
        rw [List.foldl_cons, List.foldl_cons, ih _ fun x hx => hl x (List.mem_cons_of_mem p hx),
          apply_ite UInt64.toNat, UInt64.toNat_or, toNat_single (hl p List.mem_cons_self)]
  exact hfold _ 0 fun p hp => (List.snd_lt_of_mem_zipIdx hp).trans_le hlen

end Sums

end WordIndex

end QubitLab
