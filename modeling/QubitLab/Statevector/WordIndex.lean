/-!
# Indices of amplitudes in 64-bit words

The arithmetic of `Statevector/Index` on machine words: what is shifted out at the
top is lost, and sums wrap around. Positions have to be below 64. For registers
that can be addressed the words never overflow, and the two agree.

## Main definitions

* `WordIndex.insertZeroBit`, `WordIndex.pairIndices`, `WordIndex.groupBase`,
  `WordIndex.groupOffsets`, `WordIndex.basisIndex`, `WordIndex.qubitMask`: The word
  forms of the functions of the same names.
* `WordIndex.toIndex`, `WordIndex.ofIndex`: The word forms of the passage between bit
  strings and indices.
-/

namespace QubitLab

namespace WordIndex

/-- The word with only the bit at position `n` set. -/
def single (n : UInt64) : UInt64 := 1 <<< n

/-- The word `k` with a zero put in at position `bit`; higher bits move up. -/
def insertZeroBit (k bit : UInt64) : UInt64 :=
  ((k >>> bit) <<< (bit + 1)) ||| (k &&& (single bit - 1))

/-- The indices of the `k`-th pair, which differ in the bit of `target` only. -/
def pairIndices (k target : UInt64) : UInt64 × UInt64 :=
  let i := insertZeroBit k target
  (i, i ||| single target)

/-- The least index of the `k`-th group, with zeros at all of `sorted`. -/
def groupBase (k : UInt64) (sorted : List UInt64) : UInt64 :=
  sorted.foldl insertZeroBit k

/-- The offset of the member of a group in which `qubits` have the bits of `r`. -/
def groupOffset (qubits : List UInt64) (r : Nat) : UInt64 :=
  (qubits.zipIdx.map fun p => if r.testBit p.2 then single p.1 else 0).foldl (· + ·) 0

/-- The offsets of all members of a group, in the order of the rows of a matrix. -/
def groupOffsets (qubits : List UInt64) : List UInt64 :=
  (List.range (1 <<< qubits.length)).map (groupOffset qubits)

/-- The index of the basis state in which qubit `k` has bit `k`. -/
def basisIndex (bits : List Bool) : UInt64 :=
  bits.zipIdx.foldl
    (fun acc p => if p.1 then acc ||| single (UInt64.ofNat p.2) else acc) 0

/-- Whether the bit at a position is set: it is shifted down to the lowest place, and the
    others are masked. -/
def hasBit (word position : UInt64) : Bool := (word >>> position) &&& 1 == 1

/-- The lowest `count` bits of an index. -/
def ofIndex (index : UInt64) (count : Nat) : List Bool :=
  (List.range count).map fun k => hasBit index (UInt64.ofNat k)

/-- The index of the basis state in which qubit `k` has bit `k`: the sum of the
    weights of the bits that are set. -/
def toIndex (bits : List Bool) : UInt64 :=
  (bits.zipIdx.map fun p => if p.1 then single (UInt64.ofNat p.2) else 0).foldl (· + ·) 0

/-- The index whose bits are set at exactly the given qubits. -/
def qubitMask (qubits : List UInt64) : UInt64 :=
  qubits.foldl (fun acc q => acc ||| single q) 0

end WordIndex

end QubitLab
