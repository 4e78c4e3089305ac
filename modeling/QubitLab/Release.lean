/-!
# Release

The name of the library and the versions of its components, as it reports them.
-/

namespace QubitLab

namespace Release

/-- The name that the library reports. -/
def name : String := "qsim_core"

/-- The version of the circuit component. -/
def circuitVersion : String := "0.1.0"

/-- The version of the noise component. -/
def noiseVersion : String := "0.1.0"

/-- The version of the simulator component. -/
def simulatorVersion : String := "0.1.0"

/-- The version of the rewriting component. -/
def rewriterVersion : String := "0.1.0"

end Release

end QubitLab
