/-!
# The size of a state vector

A register of `n` qubits has `2 ^ n` amplitudes. The buffer that holds them has to
be addressable by a signed 64-bit word.

## Main definitions

* `Statevector.dimension?`: The number of amplitudes, if they can be addressed.
-/

namespace QubitLab

namespace Statevector

/-- The bytes that one amplitude takes: two doubles. -/
def amplitudeBytes : Nat := 16

/-- The greatest number of bytes that a signed 64-bit word can count. -/
def addressableBytes : Nat := (1 <<< 63) - 1

/-- The number of amplitudes of `n` qubits, if a buffer of them can be addressed.
    Above the width of a word there is no need to compute the power. -/
def dimension? (n : Nat) : Option Nat :=
  if n < 64 ∧ amplitudeBytes * (1 <<< n) ≤ addressableBytes then some (1 <<< n) else none

end Statevector

end QubitLab
