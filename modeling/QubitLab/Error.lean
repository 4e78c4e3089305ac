import QubitLab.Decimal.Layout

/-!
# Errors

Why an operation is refused. The causes are grouped by what is wrong: an index
outside its register, an argument, a probability, a gate parameter, a missing
snapshot, a configuration, or a JSON text. Each group of causes that callers may
extend has a case for a reason of their own.

The scalars occur in errors because a refused number is part of the reason.

## Main definitions

* `ArgumentFault`, `ParameterFault`, `ConfigFault`, `OperationFault`, `JsonFault`:
  Causes within a group.
* `Error`: The causes.
* `Error.message`: The text of an error.
* `Error.isIndex`, `Error.isInvalidArgument`, `Error.isNotFound`,
  `Error.isUnsupported`: The kinds that callers tell apart.
-/

namespace QubitLab

/-- What is wrong with an argument. -/
inductive ArgumentFault where
  /-- A gate of the custom kind was asked for without its matrix. -/
  | matrixMissing
  /-- A gate was given the wrong number of qubits. -/
  | wrongArity (gate : String) (expected actual : Nat)
  /-- A gate was given a qubit twice. -/
  | repeatedQubit (gate : String) (qubit : Nat)
  /-- The name of a custom gate is blank. -/
  | blankName
  /-- A custom gate acts on too few or too many qubits. -/
  | customWidth (gate : String) (greatest actual : Nat)
  /-- The matrix of a custom gate is not unitary. -/
  | customNotUnitary (gate : String)
  /-- The matrix of a gate about to be applied is not unitary. -/
  | notUnitary (side : Nat)
  /-- A text that should be a bit string has another character. -/
  | notBits (text : String)
  /-- A relabelling takes two qubits to one. -/
  | repeatedTarget (target : Nat)
  /-- A noise matrix has an entry that is not a number. -/
  | noiseNotFinite
  /-- A noise matrix takes every state to nothing. -/
  | noiseZero
  /-- A simulator was asked for with no qubit. -/
  | noQubits
  /-- A register has more amplitudes than can be addressed. -/
  | notAddressable (qubits : Nat)
  /-- A register has more amplitudes than memory is granted for. -/
  | notAllocatable (amplitudes : Nat)
  /-- A run was asked for with no shot. -/
  | noShots
  /-- A basis state was named by the wrong number of bits. -/
  | wrongBitCount (expected actual : Nat)
  /-- A basis state was named by an index outside the register. -/
  | basisIndex (index amplitudes : Nat)
  /-- A density matrix would not fit in memory. -/
  | densityTooLarge (side : Nat)
  /-- A reason of the caller's own. -/
  | other (reason : String)
deriving DecidableEq, Repr

/-- What is wrong with the parameters of a gate. -/
inductive ParameterFault (R : Type) where
  /-- A gate was given the wrong number of parameters. -/
  | wrongCount (gate : String) (expected actual : Nat)
  /-- A parameter is not a number. -/
  | notFinite (gate : String) (value : R)
  /-- A reason of the caller's own. -/
  | other (reason : String)
deriving DecidableEq, Repr

/-- What is wrong with a configuration. -/
inductive ConfigFault where
  /-- The register has no qubit. -/
  | noQubits
  /-- The register has more amplitudes than can be addressed. -/
  | tooManyQubits (qubits : Nat)
  /-- A custom correction was given while there is no noise. -/
  | noiseMissing
  /-- The rewriter may not make any round. -/
  | noRounds
  /-- A reason of the caller's own. -/
  | other (reason : String)
deriving DecidableEq, Repr

/-- Why an operation is not supported. -/
inductive OperationFault where
  /-- A gate has no matrix. -/
  | noMatrix (gate : String)
  /-- A reason of the caller's own. -/
  | other (reason : String)
deriving DecidableEq, Repr

/-- What is wrong with a JSON text. -/
inductive JsonFault where
  /-- The text is not JSON. -/
  | malformed
  /-- The text is JSON of another shape than expected. -/
  | unexpectedShape
  /-- A reason of the caller's own. -/
  | other (reason : String)
deriving DecidableEq, Repr

/-- Why an operation is refused. -/
inductive Error (R : Type) where
  /-- A qubit lies outside its register. -/
  | qubitOutOfRange (qubit numQubits : Nat)
  /-- A classical bit lies outside its register. -/
  | clbitOutOfRange (clbit numClbits : Nat)
  /-- An argument makes no sense. -/
  | invalidArgument (fault : ArgumentFault)
  /-- A matrix, row or mapping has the wrong size. -/
  | dimensionMismatch (expected actual : Nat)
  /-- A probability lies outside the unit interval. -/
  | invalidProbability (value : R)
  /-- A gate parameter makes no sense. -/
  | invalidParameter (fault : ParameterFault R)
  /-- An operation is not supported. -/
  | unsupported (fault : OperationFault)
  /-- There is no snapshot of this name. -/
  | snapshotNotFound (name : String)
  /-- A configuration makes no sense. -/
  | invalidConfig (fault : ConfigFault)
  /-- A JSON text cannot be read. -/
  | invalidJson (fault : JsonFault)
deriving DecidableEq, Repr

/-- The text of an argument fault. -/
def ArgumentFault.message : ArgumentFault → String
  | matrixMissing => "custom gates require a matrix; use Gate::custom"
  | wrongArity gate expected actual =>
    s!"gate '{gate}' acts on {expected} qubit(s), got {actual}"
  | repeatedQubit gate qubit => s!"gate '{gate}' repeats qubit {qubit}"
  | blankName => "custom gate name must not be empty"
  | customWidth gate greatest actual =>
    s!"custom gate '{gate}' must act on 1..={greatest} qubits, got {actual}"
  | customNotUnitary gate => s!"custom gate '{gate}' matrix is not unitary"
  | notUnitary side => s!"{side}x{side} matrix is not unitary"
  | notBits text => s!"invalid bitstring '{text}': must contain only '0' and '1'"
  | repeatedTarget target => s!"qubit mapping repeats target {target}"
  | noiseNotFinite => "custom noise matrix has non-finite entries"
  | noiseZero => "custom noise matrix is zero"
  | noQubits => "simulator needs at least one qubit"
  | notAddressable qubits => s!"2^{qubits} amplitudes overflow the address space"
  | notAllocatable amplitudes =>
    s!"cannot allocate {amplitudes} amplitudes: " ++
      "memory allocation failed because the memory allocator returned an error"
  | noShots => "shots must be > 0"
  | wrongBitCount expected actual => s!"expected {expected} bits, got {actual}"
  | basisIndex index amplitudes =>
    s!"basis index {index} out of range for {amplitudes} amplitudes"
  | densityTooLarge side => s!"density matrix of side {side} is too large"
  | other reason => reason

/-- The text of a parameter fault. -/
def ParameterFault.message : ParameterFault Float → String
  | wrongCount gate expected actual =>
    s!"gate '{gate}' takes {expected} parameter(s), got {actual}"
  | notFinite gate value =>
    let shown := Decimal.Layout.plain.text value
    s!"gate '{gate}' parameter {shown} is not finite"
  | other reason => reason

/-- The text of a configuration fault. -/
def ConfigFault.message : ConfigFault → String
  | noQubits => "num_qubits must be > 0"
  | tooManyQubits qubits => s!"num_qubits {qubits} overflows the state buffer size"
  | noiseMissing => "custom noise needs a noise model for its rate"
  | noRounds => "max_rounds must be > 0"
  | other reason => reason

/-- The text of an operation fault. -/
def OperationFault.message : OperationFault → String
  | noMatrix gate => s!"gate '{gate}' has no matrix to apply"
  | other reason => reason

/-- The text of a JSON fault. -/
def JsonFault.message : JsonFault → String
  | malformed => "not a JSON text"
  | unexpectedShape => "unexpected shape"
  | other reason => reason

namespace Error

/-- The text of an error. -/
def message : Error Float → String
  | qubitOutOfRange qubit numQubits =>
    s!"Qubit {qubit} out of range: register has {numQubits} qubits"
  | clbitOutOfRange clbit numClbits =>
    s!"Classical bit {clbit} out of range: register has {numClbits} bits"
  | invalidArgument fault => "Invalid argument: " ++ fault.message
  | dimensionMismatch expected actual =>
    s!"Dimension mismatch: expected {expected}, got {actual}"
  | invalidProbability value =>
    let shown := Decimal.Layout.plain.text value
    s!"Invalid probability {shown}: must be in range [0, 1]"
  | invalidParameter fault => "Invalid gate parameter: " ++ fault.message
  | unsupported fault => "Unsupported operation: " ++ fault.message
  | snapshotNotFound name => s!"Snapshot '{name}' not found"
  | invalidConfig fault => "Configuration error: " ++ fault.message
  | invalidJson fault => "JSON error: " ++ fault.message

variable {R : Type}

/-- True of an index outside its register. -/
def isIndex : Error R → Bool
  | qubitOutOfRange _ _ | clbitOutOfRange _ _ => true
  | _ => false

/-- True of an argument that makes no sense, whatever it was given for. -/
def isInvalidArgument : Error R → Bool
  | invalidArgument _ | dimensionMismatch _ _ | invalidProbability _
  | invalidParameter _ => true
  | _ => false

/-- True when something was asked for that is not there. -/
def isNotFound : Error R → Bool
  | snapshotNotFound _ => true
  | _ => false

/-- True of an operation that is not supported. -/
def isUnsupported : Error R → Bool
  | unsupported _ => true
  | _ => false

end Error

end QubitLab
