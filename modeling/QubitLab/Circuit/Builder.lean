import QubitLab.Circuit.Basic

/-!
# Building circuits

A builder takes calls one after the other. A call that the circuit refuses is
passed over, and the first refusal is kept until the circuit is asked for.

## Main definitions

* `Builder`: The circuit so far and the first refusal.
* `Builder.perform`: One edit.
* `Builder.gate`, `Builder.custom`, `Builder.measure`, `Builder.measureAll`,
  `Builder.hLayer`, `Builder.cxChain`: The calls.
* `Builder.build`, `Builder.buildValidated`: The circuit.
-/

namespace QubitLab

/-- A circuit under construction. -/
structure Builder (R : Type) where
  /-- The circuit so far. -/
  circuit : Circuit R
  /-- The first refusal. -/
  refusal : Option (Error R)

namespace Builder

variable {R : Type}

/-- The builder that starts from a circuit. -/
def start (c : Circuit R) : Builder R := ⟨c, none⟩

/-- One edit. What it leaves behind is kept, and so is the first refusal. -/
def perform (b : Builder R) (edit : Circuit.Edit R Unit) : Builder R :=
  let outcome := edit b.circuit
  match outcome.result with
  | .ok _ => { b with circuit := outcome.state }
  | .error e => ⟨outcome.state, b.refusal.or (some e)⟩

/-- The call that measures a qubit. -/
def measure (b : Builder R) (qubit clbit : Nat) : Builder R :=
  b.perform (Circuit.measure qubit clbit)

/-- The call that measures every qubit into the classical bit of its number. -/
def measureAll (b : Builder R) : Builder R := b.perform Circuit.measureAll

/-- The circuit, whatever was refused. -/
def build (b : Builder R) : Circuit R := b.circuit

/-- The circuit, or the first refusal. -/
def buildValidated (b : Builder R) : Except (Error R) (Circuit R) :=
  match b.refusal with
  | some e => .error e
  | none => .ok b.circuit

variable [Scalar R]

/-- The call that adds a gate of a built-in kind. -/
def gate (b : Builder R) (kind : GateKind) (qubits : List Nat) (params : List R) :
    Builder R :=
  b.perform (Circuit.addGate kind qubits params)

/-- The call that adds a custom gate. -/
def custom (b : Builder R) (name : String) (matrix : Rows (Complex R))
    (qubits : List Nat) : Builder R :=
  b.perform (Circuit.addCustom name matrix qubits)

/-- A Hadamard gate on every qubit. -/
def hLayer (b : Builder R) : Builder R :=
  (List.range b.circuit.numQubits).foldl (fun b q => b.gate .h [q] []) b

/-- A controlled negation of every qubit by the one before it, from the first to
    the last. -/
def cxChain (b : Builder R) : Builder R :=
  (List.range (b.circuit.numQubits - 1)).foldl (fun b q => b.gate .cx [q, q + 1] []) b

end Builder

end QubitLab
