/-!
# Indices of amplitudes

Bit `q` of an index is the value of qubit `q` in that basis state. A gate on a few
qubits works on groups of amplitudes whose indices differ at those qubits only.
The groups are counted through by taking the numbers below the number of groups
and spreading their bits over the other positions.

## Main definitions

* `Statevector.insertZeroBit`: A number with a zero put in at a position.
* `Statevector.pairIndices`: The two indices of a pair.
* `Statevector.groupBase`: The least index of a group.
* `Statevector.groupOffsets`: The distances of the members of a group from the
  least one.
* `Statevector.basisIndex`: The index of a basis state.
* `Statevector.qubitMask`: The index whose bits are the given qubits.
-/

namespace QubitLab

namespace Statevector

/-- The number `k` with a zero put in at position `bit`; higher bits move up. -/
def insertZeroBit (k bit : Nat) : Nat :=
  ((k >>> bit) <<< (bit + 1)) ||| (k &&& ((1 <<< bit) - 1))

/-- The indices of the `k`-th pair, which differ in the bit of `target` only. -/
def pairIndices (k target : Nat) : Nat × Nat :=
  let i := insertZeroBit k target
  (i, i ||| (1 <<< target))

/-- The least index of the `k`-th group: zeros at all of `sorted`, which has to be
    in ascending order, since each zero is put in among the final positions. -/
def groupBase (k : Nat) (sorted : List Nat) : Nat :=
  sorted.foldl insertZeroBit k

/-- The offset of the member of a group in which `qubits` have the bits of `r`,
    the first qubit having the least significant one. -/
def groupOffset (qubits : List Nat) (r : Nat) : Nat :=
  (qubits.zipIdx.map fun p => if r.testBit p.2 then 1 <<< p.1 else 0).foldr (· + ·) 0

/-- The offsets of all members of a group, in the order of the rows of a matrix. -/
def groupOffsets (qubits : List Nat) : List Nat :=
  (List.range (1 <<< qubits.length)).map (groupOffset qubits)

/-- The index of the basis state in which qubit `k` has bit `k`. -/
def basisIndex (bits : List Bool) : Nat :=
  bits.zipIdx.foldl (fun acc p => if p.1 then acc ||| (1 <<< p.2) else acc) 0

/-- The index whose bits are set at exactly the given qubits. -/
def qubitMask (qubits : List Nat) : Nat :=
  qubits.foldl (fun acc q => acc ||| (1 <<< q)) 0

end Statevector

end QubitLab
