import QubitLab.Gate.Action
import QubitLab.Statevector.Index
import QubitLab.Statevector.Kernel

/-!
# Updates of an amplitude buffer

A buffer of `2 ^ n` amplitudes is updated group by group. The groups have no index
in common, and all members of a group are read before any of them is written, so
the buffer can be updated in place. The updates are programs over the buffer, and
the buffer after one of them is what it has made of the one before.

The updates need nothing of the amplitudes but zero, sums and products; a sum over
a row of a matrix starts at zero and is added from the left.

## Main definitions

* `Kernel.onPair`, `Kernel.onGroup`, `Kernel.exchange`: What is done to one group.
* `Kernel.matrix`: A matrix on one qubit.
* `Kernel.controlled`: A matrix on one qubit where all controls are set.
* `Kernel.swap`: The exchange of two qubits where all controls are set.
* `Kernel.dense`: A matrix over several qubits.
* `Buffer.applyMatrix`, `Buffer.applyControlled`, `Buffer.applySwap`,
  `Buffer.applyDense`: The buffers after them.
* `GateAction.apply`: The update of an action.
-/

namespace QubitLab

/-- True when all bits of a mask are set in an index. -/
def Buffer.covers (i mask : Nat) : Bool := i &&& mask == mask

namespace Kernel

variable {K : Type}

section OneGroup

/-- The members of a pair are taken through a matrix. -/
def onPair [Add K] [Mul K] (m : Matrix2 K) (i j : Nat) : Kernel K Unit := do
  let a ← get i
  let b ← get j
  set i (m.m00 * a + m.m01 * b)
  set j (m.m10 * a + m.m11 * b)

/-- Two amplitudes change places. -/
def exchange (i j : Nat) : Kernel K Unit := do
  let a ← get i
  let b ← get j
  set i b
  set j a

/-- The members of a group are taken through a matrix. -/
def onGroup [Zero K] [Add K] [Mul K] (m : Rows K) (offsets : List Nat) (base : Nat) :
    Kernel K Unit := do
  let old ← getAll (offsets.map fun offset => base + offset)
  (m.zip offsets).forM fun p => set (base + p.2) (Rows.dot p.1 old)

end OneGroup

variable (size : Nat)

/-- A matrix on one qubit: every pair is taken through it. -/
def matrix [Add K] [Mul K] (target : Nat) (m : Matrix2 K) : Kernel K Unit :=
  (List.range (size >>> 1)).forM fun k =>
    let (i, j) := Statevector.pairIndices k target
    onPair m i j

/-- A matrix on one qubit under controls: a pair is taken through it where all controls
    are set, and left alone elsewhere. -/
def controlled [Add K] [Mul K] (controls : List Nat) (target : Nat) (m : Matrix2 K) :
    Kernel K Unit :=
  let mask := Statevector.qubitMask controls
  (List.range (size >>> 1)).forM fun k =>
    let (i, j) := Statevector.pairIndices k target
    if Buffer.covers i mask then onPair m i j else return ()

/-- An exchange of two qubits under controls: where all controls are set, the two members
    of a group in which exactly one of the qubits is set change places. -/
def swap (controls : List Nat) (a b : Nat) : Kernel K Unit :=
  let mask := Statevector.qubitMask controls
  let sorted := [a, b].mergeSort
  (List.range (size >>> 2)).forM fun k =>
    let base := Statevector.groupBase k sorted
    if Buffer.covers base mask then exchange (base ||| (1 <<< a)) (base ||| (1 <<< b))
    else return ()

/-- A matrix over several qubits, of which the first is the least significant: every group
    is taken through it. -/
def dense [Zero K] [Add K] [Mul K] (qubits : List Nat) (m : Rows K) : Kernel K Unit :=
  let offsets := Statevector.groupOffsets qubits
  let sorted := qubits.mergeSort
  (List.range (size >>> qubits.length)).forM fun k =>
    onGroup m offsets (Statevector.groupBase k sorted)

end Kernel

namespace Buffer

section Updates

variable {K : Type} [Zero K] [Add K] [Mul K]

/-- The buffer after a matrix on one qubit. -/
def applyMatrix (target : Nat) (m : Matrix2 K) (s : Buffer K) : Buffer K :=
  (Kernel.matrix s.size target m).after s

/-- The buffer after a matrix on one qubit under controls. -/
def applyControlled (controls : List Nat) (target : Nat) (m : Matrix2 K)
    (s : Buffer K) : Buffer K :=
  (Kernel.controlled s.size controls target m).after s

/-- The buffer after an exchange of two qubits under controls. -/
def applySwap (controls : List Nat) (a b : Nat) (s : Buffer K) : Buffer K :=
  (Kernel.swap s.size controls a b).after s

/-- The buffer after a matrix over several qubits. -/
def applyDense (qubits : List Nat) (m : Rows K) (s : Buffer K) : Buffer K :=
  (Kernel.dense s.size qubits m).after s

end Updates

variable {R : Type} [Scalar R]

/-- The ground state over so many amplitudes. -/
def ground (amplitudes : Nat) : Buffer (Complex R) :=
  (Array.replicate amplitudes 0).setIfInBounds 0 1

/-- The squared norm. -/
def normSq (s : Buffer (Complex R)) : R :=
  s.foldl (fun acc a => acc + a.normSq) 0

/-- The probability that a qubit reads one. -/
def probabilityOfOne (s : Buffer (Complex R)) (qubit : Nat) : R :=
  Nat.fold s.size (fun i h acc => if i.testBit qubit then acc + s[i].normSq else acc) 0

/-- The buffer after a qubit has been read: amplitudes that disagree with the
    outcome vanish, and the others are divided by the root of its probability. -/
def collapse (qubit : Nat) (outcome : Bool) (probability : R)
    (s : Buffer (Complex R)) : Buffer (Complex R) :=
  let factor := 1 / Scalar.sqrt probability
  s.mapIdx fun i a => if i.testBit qubit == outcome then a.scale factor else 0

/-- The squared norm, and the buffer divided by the norm. A norm that counts as
    zero leaves the buffer as it is. -/
def rescale (zeroNorm : R) (s : Buffer (Complex R)) : R × Buffer (Complex R) :=
  let normSq := s.normSq
  if Scalar.lt zeroNorm normSq then
    let factor := 1 / Scalar.sqrt normSq
    (normSq, s.map fun a => a.scale factor)
  else (normSq, s)

end Buffer

/-- The update of an action. -/
def GateAction.apply {K : Type} [Zero K] [Add K] [Mul K] :
    GateAction K → Buffer K → Buffer K
  | .matrix [] target m, s => s.applyMatrix target m
  | .matrix controls target m, s => s.applyControlled controls target m
  | .swap controls a b, s => s.applySwap controls a b
  | .dense qubits m, s => s.applyDense qubits m

end QubitLab
