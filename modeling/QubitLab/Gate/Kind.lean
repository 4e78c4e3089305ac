import QubitLab.Text.Blank

/-!
# Kinds of gates

The closed list of gate kinds. The kind fixes how many qubits a gate acts on, how
many angles it has, and how many of its qubits, the first ones, are controls. Only
the custom kind leaves all of that to its matrix.

## Main definitions

* `GateKind`: The kinds.
* `GateKind.builtin`: Every kind but the custom one.
* `GateKind.name`: The mnemonic in a program.
* `GateKind.parse?`: The kind of a name or of one of its common aliases.
* `GateKind.arity?`, `GateKind.paramCount`, `GateKind.controlCount`: The shape.
-/

namespace QubitLab

/-- The kinds of gates. -/
inductive GateKind where
  /-- Hadamard. -/
  | h
  /-- Pauli X, the negation. -/
  | x
  /-- Pauli Y. -/
  | y
  /-- Pauli Z. -/
  | z
  /-- The square root of Z. -/
  | s
  /-- The inverse of S. -/
  | sdg
  /-- The square root of S. -/
  | t
  /-- The inverse of T. -/
  | tdg
  /-- The square root of X. -/
  | sx
  /-- The inverse of the square root of X. -/
  | sxdg
  /-- The identity. -/
  | id
  /-- Rotation about the X axis. -/
  | rx
  /-- Rotation about the Y axis. -/
  | ry
  /-- Rotation about the Z axis. -/
  | rz
  /-- Phase shift. -/
  | p
  /-- Phase shift, under its older name. -/
  | u1
  /-- The rotation by a quarter turn with two phases. -/
  | u2
  /-- The general rotation with two phases. -/
  | u3
  /-- Controlled X. -/
  | cx
  /-- Controlled Y. -/
  | cy
  /-- Controlled Z. -/
  | cz
  /-- Exchange of two qubits. -/
  | swap
  /-- Exchange with a phase. -/
  | iswap
  /-- The square root of the exchange with a phase. -/
  | sqiswap
  /-- Controlled phase shift. -/
  | cp
  /-- Controlled rotation about the X axis. -/
  | crx
  /-- Controlled rotation about the Y axis. -/
  | cry
  /-- Controlled rotation about the Z axis. -/
  | crz
  /-- Controlled phase shift, under its older name. -/
  | cu1
  /-- Doubly controlled X. -/
  | ccx
  /-- Doubly controlled Z. -/
  | ccz
  /-- Controlled exchange. -/
  | cswap
  /-- A unitary matrix of the user's own. -/
  | custom
deriving DecidableEq, Repr, Inhabited

namespace GateKind

/-- Every kind but the custom one, by size and then by family. -/
def builtin : List GateKind :=
  [h, x, y, z, s, sdg, t, tdg, sx, sxdg, id, rx, ry, rz, p, u1, u2, u3,
    cx, cy, cz, swap, iswap, sqiswap, cp, crx, cry, crz, cu1, ccx, ccz, cswap]

/-- The mnemonic in a program. -/
def name : GateKind → String
  | h => "h"
  | x => "x"
  | y => "y"
  | z => "z"
  | s => "s"
  | sdg => "sdg"
  | t => "t"
  | tdg => "tdg"
  | sx => "sx"
  | sxdg => "sxdg"
  | id => "id"
  | rx => "rx"
  | ry => "ry"
  | rz => "rz"
  | p => "p"
  | u1 => "u1"
  | u2 => "u2"
  | u3 => "u3"
  | cx => "cx"
  | cy => "cy"
  | cz => "cz"
  | swap => "swap"
  | iswap => "iswap"
  | sqiswap => "sqiswap"
  | cp => "cp"
  | crx => "crx"
  | cry => "cry"
  | crz => "crz"
  | cu1 => "cu1"
  | ccx => "ccx"
  | ccz => "ccz"
  | cswap => "cswap"
  | custom => "custom"

/-- The name in stored data: the mnemonic with a capital letter in front. -/
def storedName (k : GateKind) : String :=
  match k.name.toList with
  | [] => ""
  | c :: rest => String.ofList (c.toUpper :: rest)

/-- The kind of a common alias. -/
def alias? (name : String) : Option GateKind :=
  match name with
  | "cnot" => some cx
  | "toffoli" => some ccx
  | "fredkin" => some cswap
  | "u" => some u3
  | "phase" => some p
  | "cphase" => some cp
  | "i" => some id
  | _ => none

/-- The kind of a name or alias, in letters of either case. The custom kind has no
    name to be asked for by. -/
def parse? (text : String) : Option GateKind :=
  let name := Text.lowerAscii text
  match alias? name with
  | some k => some k
  | none => builtin.find? fun k => k.name == name

/-- The kind of a name in stored data. -/
def ofStoredName? (text : String) : Option GateKind :=
  (builtin ++ [custom]).find? fun k => k.storedName == text

/-- The number of qubits that the kind acts on; none for the custom kind. -/
def arity? : GateKind → Option Nat
  | h | x | y | z | s | sdg | t | tdg | sx | sxdg | id => some 1
  | rx | ry | rz | p | u1 | u2 | u3 => some 1
  | cx | cy | cz | swap | iswap | sqiswap | cp | crx | cry | crz | cu1 => some 2
  | ccx | ccz | cswap => some 3
  | custom => none

/-- The number of angles. -/
def paramCount : GateKind → Nat
  | rx | ry | rz | p | u1 | cp | crx | cry | crz | cu1 => 1
  | u2 => 2
  | u3 => 3
  | _ => 0

/-- The number of controls, which come first among the qubits. -/
def controlCount : GateKind → Nat
  | cx | cy | cz | cp | crx | cry | crz | cu1 | cswap => 1
  | ccx | ccz => 2
  | _ => 0

/-- True of the kinds that have angles. -/
def isParameterized (k : GateKind) : Bool := 0 < k.paramCount

/-- True of the exchange of two qubits, controlled or not. -/
def isSwapFamily : GateKind → Bool
  | swap | cswap => true
  | _ => false

end GateKind

end QubitLab
