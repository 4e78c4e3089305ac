import QubitLab.Error
import QubitLab.Gate.Kind
import QubitLab.Matrix

/-!
# Gates

A gate is a kind with the qubits that it acts on, in order, its angles, and for a
custom gate a named matrix. The two constructors `Gate.builtin` and `Gate.custom`
check the shape; a gate that comes from elsewhere can be checked again with
`Gate.validate`.

## Main definitions

* `CustomMatrix`: The name and matrix of a custom gate.
* `Gate`: A gate.
* `Gate.builtin`, `Gate.custom`: The checked constructors.
* `Gate.validate`: The same checks on a gate that is already there.
* `Gate.relabel`: The same gate on other qubits.
-/

namespace QubitLab

/-- The first item of a list that occurs before it, given the items seen so
    far. -/
def firstRepeatAfter? (seen : List Nat) : List Nat → Option Nat
  | [] => none
  | q :: rest => if q ∈ seen then some q else firstRepeatAfter? (q :: seen) rest

/-- The first item of a list that occurs before it. -/
def firstRepeat? (qubits : List Nat) : Option Nat := firstRepeatAfter? [] qubits

/-- The name and matrix of a custom gate. The first qubit of the gate is the least
    significant bit of a row or column number. -/
structure CustomMatrix (R : Type) where
  /-- The name in a program. -/
  name : String
  /-- The matrix. -/
  matrix : Rows (Complex R)
deriving BEq, DecidableEq, Repr

/-- One operation on qubits. -/
structure Gate (R : Type) where
  /-- The kind. -/
  kind : GateKind
  /-- The qubits, controls first. -/
  qubits : List Nat
  /-- The angles. -/
  params : List R
  /-- The name and matrix of a custom gate. -/
  payload : Option (CustomMatrix R)
deriving BEq, DecidableEq, Repr

namespace Gate

/-- The greatest number of qubits that a custom gate acts on. -/
def greatestCustomWidth : Nat := 10

variable {R : Type}

/-- The name: that of the custom matrix if there is one, else that of the kind. -/
def name (g : Gate R) : String :=
  match g.payload with
  | some p => p.name
  | none => g.kind.name

/-- The number of qubits. -/
def width (g : Gate R) : Nat := g.qubits.length

/-- True when the gate has angles. -/
def isParameterized (g : Gate R) : Bool := !g.params.isEmpty

/-- True when the gate touches the qubit. -/
def actsOn (g : Gate R) (q : Nat) : Bool := g.qubits.contains q

/-- True when two gates share a qubit. -/
def overlaps (g h : Gate R) : Bool := g.qubits.any h.actsOn

/-- The greatest qubit that the gate touches. -/
def greatestQubit? (g : Gate R) : Option Nat := g.qubits.max?

/-- The check that no qubit occurs twice. -/
def checkDistinct (name : String) (qubits : List Nat) : Except (Error R) Unit :=
  match firstRepeat? qubits with
  | some q => .error (.invalidArgument (.repeatedQubit name q))
  | none => .ok ()

/-- The check of the number of qubits. -/
def checkArity (name : String) (arity : Nat) (qubits : List Nat) :
    Except (Error R) Unit :=
  if qubits.length = arity then .ok ()
  else .error (.invalidArgument (.wrongArity name arity qubits.length))

/-- The check of the side of a matrix: first the number of rows, then the length
    of each. -/
def checkSide (matrix : Rows (Complex R)) (side : Nat) : Except (Error R) Unit :=
  if matrix.length ≠ side then .error (.dimensionMismatch side matrix.length)
  else
    match matrix.firstRagged? side with
    | some row => .error (.dimensionMismatch side row.length)
    | none => .ok ()

variable [Scalar R]

/-- The check of the angles: first their number, then each of them. -/
def checkParams (kind : GateKind) (params : List R) : Except (Error R) Unit :=
  if params.length ≠ kind.paramCount then
    .error (.invalidParameter (.wrongCount kind.name kind.paramCount params.length))
  else
    match params.find? fun x => !Scalar.isFinite x with
    | some x => .error (.invalidParameter (.notFinite kind.name x))
    | none => .ok ()

/-- The gate of a built-in kind. -/
def builtin (kind : GateKind) (qubits : List Nat) (params : List R) :
    Except (Error R) (Gate R) :=
  match kind.arity? with
  | none => .error (.invalidArgument .matrixMissing)
  | some arity => do
    checkArity kind.name arity qubits
    checkParams kind params
    checkDistinct kind.name qubits
    return ⟨kind, qubits, params, none⟩

/-- The check of the name and width of a custom gate. -/
def checkCustomHead (name : String) (qubits : List Nat) : Except (Error R) Unit :=
  if Text.isAllBlank name then .error (.invalidArgument .blankName)
  else if qubits.isEmpty ∨ greatestCustomWidth < qubits.length then
    .error (.invalidArgument (.customWidth name greatestCustomWidth qubits.length))
  else .ok ()

/-- The custom gate of a named unitary matrix. -/
def custom (name : String) (matrix : Rows (Complex R)) (qubits : List Nat) :
    Except (Error R) (Gate R) := do
  checkCustomHead name qubits
  checkDistinct name qubits
  checkSide matrix (1 <<< qubits.length)
  if matrix.isUnitary Scalar.unitaryTolerance then
    return ⟨.custom, qubits, [], some ⟨name, matrix⟩⟩
  else .error (.invalidArgument (.customNotUnitary name))

/-- The checks of the constructors on a gate that is already there. -/
def validate (g : Gate R) : Except (Error R) Unit :=
  match g.payload, g.kind with
  | some p, .custom => do
    let _ ← custom p.name p.matrix g.qubits
    return ()
  | _, kind => do
    let _ ← builtin kind g.qubits g.params
    return ()

omit [Scalar R] in
/-- The check that every qubit is inside a register; the first one that is not is
    reported. -/
def checkRange (numQubits : Nat) (qubits : List Nat) : Except (Error R) Unit :=
  match qubits.find? fun q => numQubits ≤ q with
  | some q => .error (.qubitOutOfRange q numQubits)
  | none => .ok ()

omit [Scalar R] in
/-- The new label of a qubit. -/
def newLabel (mapping : List Nat) (numQubits q : Nat) : Except (Error R) Nat :=
  match mapping[q]? with
  | some q' => .ok q'
  | none => .error (.qubitOutOfRange q numQubits)

omit [Scalar R] in
/-- The same gate on other qubits: qubit `q` becomes `mapping[q]`. -/
def relabel (g : Gate R) (mapping : List Nat) : Except (Error R) (Gate R) := do
  let qubits ← g.qubits.mapM (newLabel mapping mapping.length)
  checkDistinct g.name qubits
  return { g with qubits }

end Gate

end QubitLab
