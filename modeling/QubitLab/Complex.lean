import QubitLab.Scalar

/-!
# Complex numbers

Pairs of scalars with the arithmetic of amplitudes. Each operation is the
textbook formula, evaluated as written: a product takes four multiplications, and
a sum over several terms is added from the left starting at zero.

## Main definitions

* `Complex`: A pair of a real and an imaginary part.
* `Complex.conj`: The conjugate.
* `Complex.scale`: The product with a real scalar.
* `Complex.normSq`: The squared absolute value.
* `Complex.norm`: The absolute value.
* `Complex.polar`: The number of a given length and angle.
-/

namespace QubitLab

/-- A complex number over the scalars `R`. -/
structure Complex (R : Type) where
  /-- The real part. -/
  re : R
  /-- The imaginary part. -/
  im : R
deriving Repr, BEq, DecidableEq

namespace Complex

variable {R : Type} [Scalar R]

instance : Zero (Complex R) := ⟨⟨0, 0⟩⟩

instance : One (Complex R) := ⟨⟨1, 0⟩⟩

instance : Inhabited (Complex R) := ⟨0⟩

instance : Add (Complex R) := ⟨fun a b => ⟨a.re + b.re, a.im + b.im⟩⟩

instance : Sub (Complex R) := ⟨fun a b => ⟨a.re - b.re, a.im - b.im⟩⟩

instance : Neg (Complex R) := ⟨fun a => ⟨-a.re, -a.im⟩⟩

instance : Mul (Complex R) :=
  ⟨fun a b => ⟨a.re * b.re - a.im * b.im, a.re * b.im + a.im * b.re⟩⟩

/-- The real number `x`. -/
def ofReal (x : R) : Complex R := ⟨x, 0⟩

/-- The imaginary unit. -/
def i : Complex R := ⟨0, 1⟩

/-- The conjugate. -/
def conj (z : Complex R) : Complex R := ⟨z.re, -z.im⟩

/-- The product with a real scalar, part by part. -/
def scale (z : Complex R) (k : R) : Complex R := ⟨z.re * k, z.im * k⟩

/-- The squared absolute value. -/
def normSq (z : Complex R) : R := z.re * z.re + z.im * z.im

/-- The absolute value. -/
def norm (z : Complex R) : R := Scalar.hypot z.re z.im

/-- The number of length `r` at angle `t`. -/
def polar (r t : R) : Complex R := ⟨r * Scalar.cos t, r * Scalar.sin t⟩

/-- True when both parts stand for real numbers. -/
def isFinite (z : Complex R) : Bool := Scalar.isFinite z.re && Scalar.isFinite z.im

end Complex

end QubitLab
