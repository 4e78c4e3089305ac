import Mathlib.Analysis.SpecialFunctions.Trigonometric.Basic
import QubitLab.Random.Source
import QubitLab.Scalar

/-!
# Exact scalars

The real numbers as scalars, with the true square root, sine and cosine and nothing
rounded. They are not there to be run. They are what the definitions of the library
mean when its arithmetic is taken to be exact, and statements that hold up to
rounding on the machine are proved over them.

Every real number is finite, and the comparisons are the ones of the real line. The
random numbers are read from a tape.

## Main definitions

* The instance `Scalar ℝ`.
* `Exact.Tape`: Random numbers that were drawn beforehand.

## Theorems

* `sqrt_eq`, `sin_eq`, `cos_eq`, `lt_iff`, …: The operations are the ones of the reals.
* `unitaryTolerance_pos`: What is exact is within the tolerance.
-/

namespace QubitLab

namespace Exact

open Classical in
noncomputable instance : Scalar ℝ where
  ofNat n := n
  pi := Real.pi
  sqrt := Real.sqrt
  sin := Real.sin
  cos := Real.cos
  hypot a b := Real.sqrt (a * a + b * b)
  lt a b := decide (a < b)
  le a b := decide (a ≤ b)
  isFinite _ := true

@[simp] theorem sqrt_eq (x : ℝ) : Scalar.sqrt x = Real.sqrt x := rfl

@[simp] theorem sin_eq (x : ℝ) : Scalar.sin x = Real.sin x := rfl

@[simp] theorem cos_eq (x : ℝ) : Scalar.cos x = Real.cos x := rfl

@[simp] theorem pi_eq : (Scalar.pi : ℝ) = Real.pi := rfl

@[simp] theorem ofNat_eq (n : ℕ) : (Scalar.ofNat n : ℝ) = n := rfl

@[simp] theorem hypot_eq (a b : ℝ) : Scalar.hypot a b = Real.sqrt (a * a + b * b) := rfl

@[simp] theorem lt_iff (a b : ℝ) : Scalar.lt a b = true ↔ a < b := decide_eq_true_iff

@[simp] theorem le_iff (a b : ℝ) : Scalar.le a b = true ↔ a ≤ b := decide_eq_true_iff

@[simp] theorem half_eq : (Scalar.half : ℝ) = 1 / 2 := by
  rw [Scalar.half, ofNat_eq, Nat.cast_ofNat]

theorem unitaryTolerance_pos : (0 : ℝ) < Scalar.unitaryTolerance := by
  rw [Scalar.unitaryTolerance, ofNat_eq]
  positivity

/-- Random numbers that were drawn beforehand. Past their end there are only zeros. -/
structure Tape where
  /-- The draws from the unit interval. -/
  units : List ℝ
  /-- The draws from zero, one and two. -/
  thirds : List (Fin 3)

instance : RandomSource ℝ Tape where
  ofSeed _ := ⟨[], []⟩
  unit tape := (tape.units.headD 0, { tape with units := tape.units.tail })
  third tape := (tape.thirds.headD ⟨0, by decide⟩, { tape with thirds := tape.thirds.tail })

end Exact

end QubitLab
