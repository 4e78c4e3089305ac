import Mathlib.Algebra.BigOperators.Group.Finset.Basic
import Mathlib.Algebra.Ring.MinimalAxioms
import Mathlib.Algebra.Star.Basic
import QubitLab.Proofs.Exact.Complex

/-!
# Scalars that obey the laws of a ring

The operations of `Scalar` come without laws, because machine arithmetic obeys few of
them. Many statements about gates need no more than those of a commutative ring, and
nothing of the roots, sines and comparisons. `LawfulScalar` says that sums and products
obey these laws, and leaves everything else open, the quotients included.

The ring is made of the operations that the scalars come with, so what the library
computes with is what the laws are about. The real numbers are one case.

## Main definitions

* `LawfulScalar`: Sums and products obey the laws of a commutative ring.
* `LawfulScalar.ring`, `LawfulScalar.complexRing`: The scalars and the complex numbers
  over them as commutative rings.
* `LawfulScalar.starRing`: The conjugation of the complex numbers.

## Theorems

* `Complex.mul_conj`, `Complex.ofReal_sum`: Absolute values, and sums of real numbers.
-/

namespace QubitLab

/-- Scalars whose sums and products obey the laws of a commutative ring. -/
class LawfulScalar (R : Type) [Scalar R] : Prop where
  add_assoc (a b c : R) : a + b + c = a + (b + c)
  zero_add (a : R) : 0 + a = a
  neg_add_cancel (a : R) : -a + a = 0
  sub_eq_add_neg (a b : R) : a - b = a + -b
  mul_assoc (a b c : R) : a * b * c = a * (b * c)
  mul_comm (a b : R) : a * b = b * a
  one_mul (a : R) : 1 * a = a
  mul_add (a b c : R) : a * (b + c) = a * b + a * c

instance : LawfulScalar ℝ where
  add_assoc := add_assoc
  zero_add := zero_add
  neg_add_cancel := neg_add_cancel
  sub_eq_add_neg := sub_eq_add_neg
  mul_assoc := mul_assoc
  mul_comm := mul_comm
  one_mul := one_mul
  mul_add := mul_add

variable (R : Type) [Scalar R] [laws : LawfulScalar R]

/-- Lawful scalars as a commutative ring. -/
abbrev LawfulScalar.ring : CommRing R where
  __ := CommRing.ofMinimalAxioms laws.add_assoc laws.zero_add laws.neg_add_cancel
    laws.mul_assoc laws.mul_comm laws.one_mul laws.mul_add
  sub := (· - ·)
  sub_eq_add_neg := laws.sub_eq_add_neg

/-- The complex numbers over lawful scalars as a commutative ring. -/
abbrev LawfulScalar.complexRing : CommRing (Complex R) :=
  let _ := LawfulScalar.ring R
  { CommRing.ofMinimalAxioms
      (fun a b c : Complex R => by ext <;> exact add_assoc _ _ _)
      (fun a => by ext <;> exact zero_add _)
      (fun a => by ext <;> exact neg_add_cancel _)
      (fun a b c => by ext <;> simp only [Complex.mul_re, Complex.mul_im] <;> ring)
      (fun a b => by ext <;> simp only [Complex.mul_re, Complex.mul_im] <;> ring)
      (fun a => by ext <;> simp)
      (fun a b c => by
        ext <;> simp only [Complex.mul_re, Complex.mul_im, Complex.add_re, Complex.add_im] <;>
          ring) with
    sub := (· - ·)
    sub_eq_add_neg := fun a b => by ext <;> exact sub_eq_add_neg _ _ }

section Conjugation

attribute [local instance] LawfulScalar.ring LawfulScalar.complexRing

/-- The complex numbers over lawful scalars with the conjugate as their star. -/
abbrev LawfulScalar.starRing : StarRing (Complex R) where
  star := Complex.conj
  star_involutive a := by
    ext
    · rfl
    · exact neg_neg a.im
  star_mul a b := by
    ext <;> simp only [Complex.mul_re, Complex.mul_im, Complex.conj_re, Complex.conj_im] <;> ring
  star_add a b := by
    ext
    · rfl
    · exact neg_add a.im b.im

variable {R}

theorem Complex.mul_conj (z : Complex R) : z * z.conj = ofReal z.normSq := by
  ext
  · simp only [mul_re, conj_re, conj_im, ofReal_re, normSq]
    ring
  · simp only [mul_im, conj_re, conj_im, ofReal_im]
    ring

theorem Complex.ofReal_sum {ι : Type} (l : Finset ι) (x : ι → R) :
    ofReal (∑ i ∈ l, x i) = ∑ i ∈ l, ofReal (x i) :=
  map_sum (AddMonoidHom.mk' ofReal fun a b => by
    ext
    · rfl
    · exact (add_zero (0 : R)).symm) x l

end Conjugation

end QubitLab
