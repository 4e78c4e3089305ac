import QubitLab.Error

/-!
# Bit strings

The values of the qubits of a register, or what was read off them. The bit of
qubit zero comes first, both in the list and in the text, and is the least
significant one in the index of a basis state.

## Main definitions

* `Bitstring`: A list of bits.
* `Bitstring.parse`: The bits of a text of zeros and ones.
* `Bitstring.text`: The text.
* `Bitstring.ofIndex`, `Bitstring.toIndex`: The passage to basis states.
-/

namespace QubitLab

/-- A list of bits, that of qubit zero first. -/
abbrev Bitstring := List Bool

namespace Bitstring

/-- The bit that a digit stands for. -/
def bit? (c : Char) : Option Bool :=
  match c with
  | '0' => some false
  | '1' => some true
  | _ => none

/-- The digit of a bit. -/
def digit (b : Bool) : Char := if b then '1' else '0'

/-- The bits of a text, which may hold zeros and ones only. -/
def parse {R : Type} (s : String) : Except (Error R) Bitstring :=
  match s.toList.mapM bit? with
  | some bits => .ok bits
  | none => .error (.invalidArgument (.notBits s))

/-- The text, one digit a bit. -/
def text (b : Bitstring) : String := String.ofList (b.map digit)

/-- The lowest `count` bits of an index. -/
def ofIndex (index count : Nat) : Bitstring :=
  (List.range count).map fun k => index.testBit k

/-- The index of the basis state in which qubit `k` has bit `k`: the sum of the
    weights of the bits that are set. -/
def toIndex (b : Bitstring) : Nat :=
  (b.zipIdx.map fun p => if p.1 then 1 <<< p.2 else 0).foldr (· + ·) 0

/-- The number of bits that are set. -/
def weight (b : Bitstring) : Nat := b.count true

end Bitstring

end QubitLab
