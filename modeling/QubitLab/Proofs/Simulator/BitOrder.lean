import QubitLab.Bitstring
import QubitLab.Proofs.Statevector.Sums
import QubitLab.Proofs.Statevector.Words
import QubitLab.Statevector.Observable

/-!
# One order of the bits

The bit of qubit zero is the first of a string, the first character of its text, and the
least significant bit of an index. This is decided in several places that do not know of each
other. A string gives its index as a sum of weights, the state vector finds an amplitude by
joining bits, an index is taken apart by shifts and masks, and a text is read and written
digit by digit. Reversing one of them goes unnoticed on every palindrome.

That a sum of weights and a union of bits are the same index is `testBit_groupOffset` once
more: a string is a list of all qubits in ascending order, and its index is the offset of a
group that consists of the whole register. From the bits of this index everything else
follows, on words of 64 bits too, as long as there are no more bits than that.

So there are three ways to ask a simulator for the probability of a basis state, and one
answer.

## Theorems

* `parse_eq_ok_iff`, `exists_parse_iff`: Which texts are read, and as what.
* `toIndex_eq_basisIndex`: The sum of the weights is the union of the bits.
* `ofIndex_toIndex`, `toIndex_ofIndex`: From strings to indices and back.
* `toNat_toIndex`, `ofIndex_eq`: The same on words.
* `bit_order_agrees`: Strings, texts, indices and probabilities agree.
-/

namespace QubitLab

open Statevector

namespace Bitstring

section Texts

variable {R : Type}

/-- A character is read as the bit that it is written for. -/
theorem bit?_eq_some_iff {c : Char} {b : Bool} : bit? c = some b ↔ c = digit b := by
  constructor
  · intro h
    unfold bit? at h
    split at h
    · exact Option.some.inj h ▸ rfl
    · exact Option.some.inj h ▸ rfl
    · exact absurd h (by simp only [reduceCtorEq, not_false_eq_true])
  · rintro rfl
    cases b <;> rfl

/-- Digits are read one by one, and all of them have to be read. -/
theorem mapM_bit?_eq_some_iff {digits : List Char} {bits : Bitstring} :
    digits.mapM bit? = some bits ↔ digits = bits.map digit := by
  induction digits generalizing bits with
  | nil => cases bits <;> simp
  | cons c rest ih =>
      rw [List.mapM_cons]
      cases bits with
      | nil => cases bit? c <;> cases rest.mapM bit? <;> simp
      | cons b bits =>
          simp [Option.bind_eq_some_iff, bit?_eq_some_iff, ih]

/-- A text is read as the one string that it is written for. -/
theorem parse_eq_ok_iff {s : String} {b : Bitstring} :
    (parse s : Except (Error R) Bitstring) = .ok b ↔ s = text b := by
  have hlist : s = text b ↔ s.toList = b.map digit := by
    rw [text, ← String.toList_inj, String.toList_ofList]
  rw [hlist, ← mapM_bit?_eq_some_iff, parse]
  cases s.toList.mapM bit? <;> simp

/-- A text is read when it has no other characters than zeros and ones. -/
theorem exists_parse_iff {s : String} :
    (∃ b, (parse s : Except (Error R) Bitstring) = .ok b) ↔
      ∀ c ∈ s.toList, c = '0' ∨ c = '1' := by
  constructor
  · rintro ⟨b, h⟩ c hc
    rw [parse_eq_ok_iff.mp h, text, String.toList_ofList] at hc
    rcases List.mem_map.mp hc with ⟨b, -, rfl⟩
    cases b with
    | false => exact Or.inl rfl
    | true => exact Or.inr rfl
  · intro h
    refine ⟨s.toList.map (· == '1'), parse_eq_ok_iff.mpr ?_⟩
    rw [text, ← String.toList_inj, String.toList_ofList, List.map_map]
    conv => lhs; rw [← List.map_id s.toList]
    refine List.map_congr_left fun c hc => ?_
    rcases h c hc with rfl | rfl <;> rfl

end Texts

section Indices

/-- The weights of a string are those of the whole register as one group. -/
theorem toIndex_eq_groupOffset (b : Bitstring) :
    b.toIndex = groupOffset (List.range b.length) (basisIndex b) := by
  unfold toIndex groupOffset
  congr 1
  refine List.ext_getElem (by simp) fun k hk _ => ?_
  rw [List.length_map, List.length_zipIdx] at hk
  have hbit : (basisIndex b).testBit k = b[k] := by
    rw [testBit_basisIndex, List.getD_eq_getElem?_getD, List.getElem?_eq_getElem hk,
      Option.getD_some]
  simp only [List.getElem_map, List.getElem_zipIdx, List.getElem_range, Nat.zero_add, hbit]

/-- The sum of the weights is the union of the bits. -/
theorem toIndex_eq_basisIndex (b : Bitstring) : b.toIndex = basisIndex b := by
  refine Nat.eq_of_testBit_eq fun p => ?_
  rw [toIndex_eq_groupOffset, testBit_groupOffset List.nodup_range]
  -- In the group of all qubits each one is at its own position.
  by_cases hp : p < b.length
  · have hidx : (List.range b.length).idxOf p = p := by
      have h := List.nodup_range.idxOf_getElem p (show p < (List.range b.length).length by simpa)
      rwa [List.getElem_range] at h
    rw [if_pos (List.mem_range.mpr hp), hidx]
  · rw [if_neg (mt List.mem_range.mp hp),
      testBit_eq_false_of_lt (basisIndex_lt b) (Nat.le_of_not_lt hp)]

theorem toIndex_lt (b : Bitstring) : b.toIndex < 2 ^ b.length :=
  toIndex_eq_basisIndex b ▸ basisIndex_lt b

/-- A string comes back from its index. -/
theorem ofIndex_toIndex (b : Bitstring) : ofIndex b.toIndex b.length = b := by
  refine List.ext_getElem (by rw [ofIndex, List.length_map, List.length_range]) fun k _ hk => ?_
  simp only [ofIndex, List.getElem_map, List.getElem_range]
  rw [toIndex_eq_basisIndex, testBit_basisIndex, List.getD_eq_getElem?_getD,
    List.getElem?_eq_getElem hk, Option.getD_some]

/-- What an index has above the length is lost. -/
theorem toIndex_ofIndex (i n : Nat) : (ofIndex i n).toIndex = i % 2 ^ n := by
  refine Nat.eq_of_testBit_eq fun p => ?_
  rw [toIndex_eq_basisIndex, testBit_basisIndex, Nat.testBit_mod_two_pow,
    List.getD_eq_getElem?_getD]
  by_cases hp : p < n
  · simp [ofIndex, hp]
  · simp [ofIndex, hp]

end Indices

section Words

/-- The sum of the weights does not overflow a word, up to 64 bits. -/
theorem toNat_toIndex {b : Bitstring} (hlen : b.length ≤ 64) :
    (WordIndex.toIndex b).toNat = b.toIndex := by
  refine WordIndex.toNat_sum ?_ ((toIndex_lt b).trans_le (Nat.pow_le_pow_right (by decide) hlen))
  rw [List.map_map]
  refine List.map_congr_left fun p hp => ?_
  have hp' : p.2 < 64 := (List.snd_lt_of_mem_zipIdx hp).trans_le hlen
  simp only [Function.comp_apply, apply_ite UInt64.toNat, WordIndex.toNat_single hp',
    UInt64.toNat_zero]

theorem ofIndex_eq (i : UInt64) {n : Nat} (hn : n ≤ 64) :
    WordIndex.ofIndex i n = ofIndex i.toNat n :=
  List.map_congr_left fun _ hk => WordIndex.hasBit_eq_testBit i ((List.mem_range.mp hk).trans_le hn)

/-- On words as on numbers, the sum of the weights is the union of the bits. -/
theorem word_toIndex_eq_basisIndex {b : Bitstring} (hlen : b.length ≤ 64) :
    WordIndex.toIndex b = WordIndex.basisIndex b := by
  rw [← UInt64.toNat_inj, toNat_toIndex hlen, WordIndex.toNat_basisIndex hlen,
    toIndex_eq_basisIndex]

end Words

end Bitstring

namespace Simulator

variable {R G : Type} [Scalar R] {s : Simulator R G}

section Probabilities

theorem probabilityOfIndex_eq {i : Nat} (hi : i < s.buffer.size) :
    s.probabilityOfIndex i = .ok (s.buffer.amplitude i).normSq := by
  rw [probabilityOfIndex, Array.getElem?_eq_getElem hi, Buffer.amplitude_eq_getElem s.buffer hi]

theorem getElem?_probabilities {i : Nat} (hi : i < s.buffer.size) :
    s.probabilities[i]? = some (s.buffer.amplitude i).normSq := by
  rw [probabilities, List.getElem?_map, Array.getElem?_toList, Array.getElem?_eq_getElem hi,
    Buffer.amplitude_eq_getElem s.buffer hi, Option.map_some]

/-- The probability that the bits give is that of the amplitude at their index. -/
theorem probabilityOfBits_eq {b : Bitstring} (hb : b.length = s.numQubits) :
    s.probabilityOfBits b = .ok (s.buffer.amplitude b.toIndex).normSq := by
  rw [probabilityOfBits, if_neg (not_not_intro hb), Bitstring.toIndex_eq_basisIndex]

theorem probabilityOfBits_eq_error {b : Bitstring} (hb : b.length ≠ s.numQubits) :
    s.probabilityOfBits b = .error (.invalidArgument (.wrongBitCount s.numQubits b.length)) := by
  rw [probabilityOfBits, if_pos hb]

end Probabilities

/-- Bit strings, their texts, indices and amplitudes agree on the order of the bits. A string
    of up to 64 bits comes back from its index, on words too, where the sum of the weights is
    the union of the bits. An index comes back from its lowest bits. The texts of zeros and
    ones are read, and each as the string that it is the text of. And the probability of a
    basis state is the same by its bits, by its index and in the list of all, while bits of
    another number than the qubits are refused. -/
theorem bit_order_agrees (hbuf : s.buffer.size = 2 ^ s.numQubits) :
    (∀ b : Bitstring, b.length ≤ 64 →
      Bitstring.ofIndex b.toIndex b.length = b ∧
        b.toIndex = basisIndex b ∧
        (WordIndex.toIndex b).toNat = b.toIndex ∧
        WordIndex.toIndex b = WordIndex.basisIndex b ∧
        WordIndex.ofIndex (WordIndex.toIndex b) b.length = b) ∧
    (∀ (i : UInt64) (n : Nat), n ≤ 64 →
      (Bitstring.ofIndex i.toNat n).toIndex = i.toNat % 2 ^ n ∧
        WordIndex.ofIndex i n = Bitstring.ofIndex i.toNat n ∧
        (WordIndex.toIndex (WordIndex.ofIndex i n)).toNat = i.toNat % 2 ^ n) ∧
    (∀ t : String,
      ((∃ b, (Bitstring.parse t : Except (Error R) Bitstring) = .ok b) ↔
          ∀ c ∈ t.toList, c = '0' ∨ c = '1') ∧
        ∀ b, (Bitstring.parse t : Except (Error R) Bitstring) = .ok b ↔ t = b.text) ∧
    (∀ b : Bitstring, b.length = s.numQubits → ∃ p,
      s.probabilityOfBits b = .ok p ∧ s.probabilityOfIndex b.toIndex = .ok p ∧
        s.probabilities[b.toIndex]? = some p ∧ p = (s.buffer.amplitude b.toIndex).normSq) ∧
    ∀ b : Bitstring, b.length ≠ s.numQubits →
      s.probabilityOfBits b = .error (.invalidArgument (.wrongBitCount s.numQubits b.length)) := by
  refine ⟨fun b hlen => ?_, fun i n hn => ?_, fun t => ?_, fun b hb => ?_,
    fun b hb => probabilityOfBits_eq_error hb⟩
  · refine ⟨b.ofIndex_toIndex, b.toIndex_eq_basisIndex, Bitstring.toNat_toIndex hlen,
      Bitstring.word_toIndex_eq_basisIndex hlen, ?_⟩
    rw [Bitstring.ofIndex_eq _ hlen, Bitstring.toNat_toIndex hlen, b.ofIndex_toIndex]
  · refine ⟨Bitstring.toIndex_ofIndex _ n, Bitstring.ofIndex_eq i hn, ?_⟩
    have hlen : (Bitstring.ofIndex i.toNat n).length ≤ 64 := by
      rwa [Bitstring.ofIndex, List.length_map, List.length_range]
    rw [Bitstring.ofIndex_eq i hn, Bitstring.toNat_toIndex hlen, Bitstring.toIndex_ofIndex]
  · exact ⟨Bitstring.exists_parse_iff, fun b => Bitstring.parse_eq_ok_iff⟩
  · have hlt : b.toIndex < s.buffer.size := hbuf ▸ hb ▸ b.toIndex_lt
    exact ⟨_, probabilityOfBits_eq hb, probabilityOfIndex_eq hlt, getElem?_probabilities hlt, rfl⟩

/-- Two qubits of which only the first is set. -/
def firstSet : Simulator Float Unit where
  numQubits := 2
  buffer := #[0, 1, 0, 0]
  snapshots := .empty
  noise := none
  generator := ()

theorem firstSet_bit_order_agrees :
    firstSet.buffer.size = 2 ^ firstSet.numQubits ∧
      (∃ p, firstSet.probabilityOfBits [true, false] = .ok p ∧
        firstSet.probabilityOfIndex 1 = .ok p ∧ firstSet.probabilities[1]? = some p) ∧
      firstSet.probabilityOfBits [true] = .error (.invalidArgument (.wrongBitCount 2 1)) ∧
      (WordIndex.toIndex (WordIndex.ofIndex 13 3)).toNat = 5 ∧
      (Bitstring.parse "011" : Except (Error Float) Bitstring) = .ok [false, true, true] := by
  have hbuf : firstSet.buffer.size = 2 ^ firstSet.numQubits := rfl
  rcases bit_order_agrees hbuf with ⟨-, hindex, htext, hbits, hother⟩
  rcases hbits [true, false] rfl with ⟨p, hofBits, hofIndex, hlisted, -⟩
  exact ⟨hbuf, ⟨p, hofBits, hofIndex, hlisted⟩, hother [true] (by decide),
    (hindex 13 3 (by decide)).2.2, ((htext "011").2 [false, true, true]).mpr rfl⟩

end Simulator

end QubitLab
