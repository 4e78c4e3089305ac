import Mathlib.Tactic.Ring
import QubitLab.Matrix
import QubitLab.Proofs.Exact.Scalar

/-!
# Exact complex numbers

The complex numbers over the exact scalars form a commutative ring, with the
arithmetic that the library computes with. What is proved of amplitudes in any ring
holds of them.

## Main definitions

* The instance `CommRing (Complex ℝ)`.

## Theorems

* `polar_mul_polar`, `polar_zero`: The product of two phases, and the phase of no turn.
-/

namespace QubitLab

attribute [ext] Complex Matrix2

namespace Complex

section Parts

variable {R : Type} [Scalar R]

@[simp] theorem zero_re : (0 : Complex R).re = 0 := rfl

@[simp] theorem zero_im : (0 : Complex R).im = 0 := rfl

@[simp] theorem one_re : (1 : Complex R).re = 1 := rfl

@[simp] theorem one_im : (1 : Complex R).im = 0 := rfl

@[simp] theorem add_re (a b : Complex R) : (a + b).re = a.re + b.re := rfl

@[simp] theorem add_im (a b : Complex R) : (a + b).im = a.im + b.im := rfl

@[simp] theorem sub_re (a b : Complex R) : (a - b).re = a.re - b.re := rfl

@[simp] theorem sub_im (a b : Complex R) : (a - b).im = a.im - b.im := rfl

@[simp] theorem neg_re (a : Complex R) : (-a).re = -a.re := rfl

@[simp] theorem neg_im (a : Complex R) : (-a).im = -a.im := rfl

@[simp] theorem mul_re (a b : Complex R) : (a * b).re = a.re * b.re - a.im * b.im := rfl

@[simp] theorem mul_im (a b : Complex R) : (a * b).im = a.re * b.im + a.im * b.re := rfl

@[simp] theorem conj_re (a : Complex R) : a.conj.re = a.re := rfl

@[simp] theorem conj_im (a : Complex R) : a.conj.im = -a.im := rfl

@[simp] theorem i_re : (i : Complex R).re = 0 := rfl

@[simp] theorem i_im : (i : Complex R).im = 1 := rfl

@[simp] theorem ofReal_re (x : R) : (ofReal x).re = x := rfl

@[simp] theorem ofReal_im (x : R) : (ofReal x).im = 0 := rfl

end Parts

noncomputable instance : CommRing (Complex ℝ) where
  zero := 0
  one := 1
  add := (· + ·)
  mul := (· * ·)
  neg := (- ·)
  sub := (· - ·)
  nsmul := nsmulRec
  zsmul := zsmulRec
  add_assoc a b c := by ext <;> exact add_assoc _ _ _
  zero_add a := by ext <;> exact zero_add _
  add_zero a := by ext <;> exact add_zero _
  add_comm a b := by ext <;> exact add_comm _ _
  neg_add_cancel a := by ext <;> exact neg_add_cancel _
  sub_eq_add_neg a b := by ext <;> exact sub_eq_add_neg _ _
  mul_assoc a b c := by ext <;> simp <;> ring
  one_mul a := by ext <;> simp
  mul_one a := by ext <;> simp
  zero_mul a := by ext <;> simp
  mul_zero a := by ext <;> simp
  left_distrib a b c := by ext <;> simp <;> ring
  right_distrib a b c := by ext <;> simp <;> ring
  mul_comm a b := by ext <;> simp <;> ring

/-- Phases multiply by adding their angles. -/
theorem polar_mul_polar (x y : ℝ) : polar 1 x * polar 1 y = polar 1 (x + y) := by
  ext
  · simp only [polar, mul_re, Exact.cos_eq, Exact.sin_eq, Real.cos_add]
    ring
  · simp only [polar, mul_im, Exact.cos_eq, Exact.sin_eq, Real.sin_add]
    ring

theorem polar_zero : polar 1 (0 : ℝ) = 1 := by
  ext
  · simp [polar]
  · simp [polar]

end Complex

end QubitLab
