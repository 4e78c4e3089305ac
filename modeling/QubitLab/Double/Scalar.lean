import QubitLab.Double.Hypotenuse
import QubitLab.Scalar

/-!
# Double precision scalars

The scalars that the library runs on.
-/

namespace QubitLab

namespace Double

instance : Scalar Float where
  ofNat := Float.ofNat
  pi := 3.141592653589793
  sqrt := Float.sqrt
  sin := Float.sin
  cos := Float.cos
  hypot := hypotenuse
  lt a b := a < b
  le a b := a ≤ b
  isFinite := Float.isFinite

end Double

end QubitLab
