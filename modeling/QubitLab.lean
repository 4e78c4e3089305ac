import QubitLab.Bitstring
import QubitLab.Circuit.Builder
import QubitLab.Circuit.Qasm
import QubitLab.Circuit.Stored
import QubitLab.Double.Scalar
import QubitLab.Json.Reader
import QubitLab.Json.Writer
import QubitLab.Random.KeyStream
import QubitLab.Release
import QubitLab.Rewrite.Pipeline
import QubitLab.Statevector.Measurement
import QubitLab.Statevector.Observable
import QubitLab.Statevector.WordIndex
import QubitLab.Proofs.Checks
import QubitLab.Proofs.Gate.Fits
import QubitLab.Proofs.Transition
import QubitLab.Proofs.Circuit.Layers
import QubitLab.Proofs.Circuit.Renamed
import QubitLab.Proofs.Rewrite.Reordering
import QubitLab.Proofs.Rewrite.Adjacent
import QubitLab.Proofs.Rewrite.Meaning
import QubitLab.Proofs.Rewrite.Cancel
import QubitLab.Proofs.Rewrite.Fuse
import QubitLab.Proofs.Rewrite.Usage
import QubitLab.Proofs.Rewrite.Faithful
import QubitLab.Proofs.Exact.Scalar
import QubitLab.Proofs.Rewrite.FixedPoint
import QubitLab.Proofs.Statevector.Bits
import QubitLab.Proofs.Statevector.Groups
import QubitLab.Proofs.Statevector.Programs
import QubitLab.Proofs.Statevector.Pointwise
import QubitLab.Proofs.Gate.Action
import QubitLab.Proofs.Statevector.Relabelled
import QubitLab.Proofs.Agreement
import QubitLab.Proofs.Simulator.Relabelled
import QubitLab.Proofs.Simulator.Running
import QubitLab.Proofs.Exact.Complex
import QubitLab.Proofs.Exact.Unitary
import QubitLab.Proofs.Statevector.Composition
import QubitLab.Proofs.Statevector.Kernels
import QubitLab.Proofs.Rewrite.Sound
import QubitLab.Proofs.Statevector.Dense
import QubitLab.Proofs.Exact.Laws
import QubitLab.Proofs.Simulator.Gates
import QubitLab.Proofs.Rewrite.Failure
import QubitLab.Proofs.Exact.Isometry
import QubitLab.Proofs.Statevector.Norm
import QubitLab.Proofs.Invariant
import QubitLab.Proofs.Simulator.Operations
import QubitLab.Proofs.Simulator.Normalized
import QubitLab.Proofs.Statevector.Share
import QubitLab.Proofs.Simulator.Reading
import QubitLab.Proofs.Circuit.Depth
import QubitLab.Proofs.Rewrite.Accounts
import QubitLab.Proofs.Rewrite.Confluence
import QubitLab.Proofs.Circuit.Calls
import QubitLab.Proofs.Circuit.Building
import QubitLab.Proofs.Simulator.Stopping
import QubitLab.Proofs.Statevector.Sizes
import QubitLab.Proofs.Statevector.Snapshots
import QubitLab.Proofs.Simulator.Snapshots
import QubitLab.Proofs.Simulator.Evolution
import QubitLab.Proofs.Simulator.Lockstep
import QubitLab.Proofs.Simulator.Silent
import QubitLab.Proofs.Statevector.Counts
import QubitLab.Proofs.Simulator.Shots
import QubitLab.Proofs.Simulator.Born
import QubitLab.Proofs.Json.Numbers
import QubitLab.Proofs.Json.Strings
import QubitLab.Proofs.Json.Layouts
import QubitLab.Proofs.Json.Shapes
import QubitLab.Proofs.Json.Stored
import QubitLab.Proofs.Json.Lossless
import QubitLab.Proofs.Circuit.Earliest
import QubitLab.Proofs.Rewrite.Layered
import QubitLab.Proofs.Circuit.Relabelled
import QubitLab.Proofs.Rewrite.Busiest
import QubitLab.Proofs.Text.Separated
import QubitLab.Proofs.Gate.Statement
import QubitLab.Proofs.Gate.Constructed
import QubitLab.Proofs.Simulator.Acceptance
import QubitLab.Proofs.Double.Finite
import QubitLab.Proofs.Gate.Unitarity
import QubitLab.Proofs.Gate.Finite
import QubitLab.Proofs.Circuit.Program
import QubitLab.Proofs.Statevector.Words
import QubitLab.Proofs.Statevector.Enumeration
import QubitLab.Proofs.Simulator.BitOrder
import QubitLab.Proofs.Noise.Completeness
import QubitLab.Proofs.Simulator.Density
