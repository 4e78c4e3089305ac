/-!
# Sources of random numbers

What the simulator needs of a random number generator. The state of the generator
is a value, and each draw answers with the state after it.
-/

namespace QubitLab

/-- A generator with state `G` that draws scalars `R`. -/
class RandomSource (R : outParam Type) (G : Type) where
  /-- The state that a seed starts from. -/
  ofSeed : UInt64 → G
  /-- A draw from the unit interval without its end. -/
  unit : G → R × G
  /-- A draw from zero, one and two. -/
  third : G → Fin 3 × G

end QubitLab
