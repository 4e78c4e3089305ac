import QubitLab.Proofs.Exact.Unitary
import QubitLab.Proofs.Statevector.Dense

/-!
# Exact isometries

A matrix with orthonormal columns keeps the sum of the squared absolute values of what it
is applied to. For the matrices on one qubit this is a formula with four entries. For the
others it is the usual exchange of sums: the squared absolute value of a row against a
vector is a sum over pairs of columns, and only equal columns are left after the sum over
all rows.

Every gate of a built-in kind has such a matrix, up to the exchanges, which have none. The
lowering operator has not: what it leaves is the part that was one.

## Main definitions

* `Complex.conjHom`, `Complex.reHom`: The conjugate and the real part keep sums.
* `Matrix2.Isometry`: A matrix on one qubit has orthonormal columns.
* `Gate.ExactlyUnitary`: The matrix of a custom gate has orthonormal columns.

## Theorems

* `Isometry.normSq_add`, `normSq_sum_of_orthonormal`: Norms are kept.
* `isometry_of_targetMatrix?`: The gates on a target.
* `Gate.ExactlyUnitary.orthonormal`: The gates on several qubits.
-/

namespace QubitLab

namespace Complex

/-- The conjugate keeps sums and products. -/
noncomputable def conjHom : Complex ℝ →+* Complex ℝ where
  toFun := conj
  map_zero' := by ext <;> simp
  map_one' := by ext <;> simp
  map_add' a b := by
    ext
    · rfl
    · exact neg_add a.im b.im
  map_mul' a b := by
    ext
    · simp
    · simp
      ring

/-- The real part keeps sums. -/
noncomputable def reHom : Complex ℝ →+ ℝ where
  toFun := re
  map_zero' := rfl
  map_add' _ _ := rfl

theorem normSq_eq_re (z : Complex ℝ) : z.normSq = reHom (conjHom z * z) := by
  change z.re * z.re + z.im * z.im = z.re * z.re - -z.im * z.im
  ring

@[simp] theorem normSq_zero : (0 : Complex ℝ).normSq = 0 := by simp [normSq]

@[simp] theorem normSq_one : (1 : Complex ℝ).normSq = 1 := by simp [normSq]

@[simp] theorem normSq_neg (z : Complex ℝ) : (-z).normSq = z.normSq := by simp [normSq]

@[simp] theorem normSq_i : (i : Complex ℝ).normSq = 1 := by simp [normSq]

theorem normSq_mul (z w : Complex ℝ) : (z * w).normSq = z.normSq * w.normSq := by
  simp only [normSq, mul_re, mul_im]
  ring

theorem normSq_scale (z : Complex ℝ) (k : ℝ) : (z.scale k).normSq = k * k * z.normSq := by
  simp only [normSq, scale]
  ring

theorem cos_mul_cos_add (x : ℝ) :
    Real.cos x * Real.cos x + Real.sin x * Real.sin x = 1 := by
  linear_combination Real.cos_sq_add_sin_sq x

@[simp] theorem normSq_polar (x : ℝ) : (polar 1 x).normSq = 1 := by
  simp only [normSq, polar, Exact.cos_eq, Exact.sin_eq, one_mul, cos_mul_cos_add]

end Complex

namespace Matrix2

/-- A matrix on one qubit keeps the norm of what it is applied to. -/
def Isometry (m : Matrix2 (Complex ℝ)) : Prop :=
  ∀ a b : Complex ℝ,
    (m.m00 * a + m.m01 * b).normSq + (m.m10 * a + m.m11 * b).normSq = a.normSq + b.normSq

/-- Two isometries one after the other are one. -/
theorem Isometry.mul {m m' : Matrix2 (Complex ℝ)} (hm : m.Isometry) (hm' : m'.Isometry) :
    (m'.mul m).Isometry := by
  intro a b
  -- A row of the product is a row of the second matrix against what the first one left.
  have hrow : ∀ x y : Complex ℝ,
      (x * m.m00 + y * m.m10) * a + (x * m.m01 + y * m.m11) * b
        = x * (m.m00 * a + m.m01 * b) + y * (m.m10 * a + m.m11 * b) := by
    intro x y
    ring
  rw [← hm a b, ← hm' (m.m00 * a + m.m01 * b) (m.m10 * a + m.m11 * b), ← hrow, ← hrow]
  rfl

/-- A diagonal matrix of two phases is an isometry. -/
theorem isometry_diagonal {z w : Complex ℝ} (hz : z.normSq = 1) (hw : w.normSq = 1) :
    Isometry ⟨z, 0, 0, w⟩ := by
  intro a b
  simp only [zero_mul, add_zero, zero_add, Complex.normSq_mul, hz, hw, one_mul]

/-- A matrix that exchanges the two amplitudes, with a phase for each, is an isometry. -/
theorem isometry_antidiagonal {z w : Complex ℝ} (hz : z.normSq = 1) (hw : w.normSq = 1) :
    Isometry ⟨0, z, w, 0⟩ := by
  intro a b
  simp only [zero_mul, add_zero, zero_add, Complex.normSq_mul, hz, hw, one_mul]
  exact add_comm _ _

/-- What the lowering operator leaves is the norm of the part that was one. -/
theorem normSq_lowering (a b : Complex ℝ) :
    (Unitary.lowering.m00 * a + Unitary.lowering.m01 * b).normSq +
      (Unitary.lowering.m10 * a + Unitary.lowering.m11 * b).normSq = b.normSq := by
  simp [Unitary.lowering]

end Matrix2

namespace Unitary

section OneQubit

open QubitLab.Complex Matrix2

theorem isometry_identity : (identity : Matrix2 (Complex ℝ)).Isometry :=
  isometry_diagonal normSq_one normSq_one

theorem isometry_pauliX : (pauliX : Matrix2 (Complex ℝ)).Isometry :=
  isometry_antidiagonal normSq_one normSq_one

theorem isometry_pauliY : (pauliY : Matrix2 (Complex ℝ)).Isometry :=
  isometry_antidiagonal ((normSq_neg _).trans normSq_i) normSq_i

theorem isometry_pauliZ : (pauliZ : Matrix2 (Complex ℝ)).Isometry :=
  isometry_diagonal normSq_one ((normSq_neg _).trans normSq_one)

theorem isometry_hadamard : (hadamard : Matrix2 (Complex ℝ)).Isometry := by
  intro a b
  simp only [hadamard, normSq, add_re, add_im, mul_re, mul_im, ofReal_re, ofReal_im, neg_re,
    neg_im]
  linear_combination 2 * (a.re * a.re + a.im * a.im + b.re * b.re + b.im * b.im)
    * sqrtHalf_mul_sqrtHalf

theorem isometry_sqrtX : (sqrtX : Matrix2 (Complex ℝ)).Isometry := by
  intro a b
  simp only [sqrtX, normSq, add_re, add_im, mul_re, mul_im, Exact.half_eq]
  ring

theorem isometry_sqrtXInverse : (sqrtXInverse : Matrix2 (Complex ℝ)).Isometry := by
  intro a b
  simp only [sqrtXInverse, normSq, add_re, add_im, mul_re, mul_im, Exact.half_eq]
  ring

theorem isometry_phase (x : ℝ) : (phase x).Isometry :=
  isometry_diagonal normSq_one (normSq_polar x)

theorem isometry_rotationX (x : ℝ) : (rotationX x).Isometry := by
  intro a b
  simp only [rotationX, normSq, add_re, add_im, mul_re, mul_im, Exact.cos_eq, Exact.sin_eq]
  linear_combination (a.re * a.re + a.im * a.im + b.re * b.re + b.im * b.im)
    * cos_mul_cos_add (x / Scalar.ofNat 2)

theorem isometry_rotationY (x : ℝ) : (rotationY x).Isometry := by
  intro a b
  simp only [rotationY, normSq, add_re, add_im, mul_re, mul_im, Exact.cos_eq, Exact.sin_eq]
  linear_combination (a.re * a.re + a.im * a.im + b.re * b.re + b.im * b.im)
    * cos_mul_cos_add (x / Scalar.ofNat 2)

/-- The general rotation is the one about the Y axis between two phases. -/
theorem general_eq (angle after before : ℝ) :
    general angle after before = ((phase after).mul (rotationY angle)).mul (phase before) := by
  have hpolar : ∀ r t : ℝ, polar r t = (⟨r, 0⟩ : Complex ℝ) * polar 1 t := by
    intro r t
    ext <;> simp [polar]
  have hneg : ∀ r : ℝ, (⟨-r, 0⟩ : Complex ℝ) = -⟨r, 0⟩ := by
    intro r
    ext <;> simp
  simp only [general, phase, rotationY, Matrix2.mul, one_mul, zero_mul, mul_one, mul_zero,
    add_zero, zero_add, Matrix2.mk.injEq, true_and]
  refine ⟨?_, ?_, ?_⟩
  · rw [hpolar, hneg, neg_mul]
  · rw [hpolar, mul_comm]
  · rw [hpolar, ← polar_mul_polar]
    ring

/-- The general rotation is an isometry, as the product of three of them. -/
theorem isometry_general (angle after before : ℝ) : (general angle after before).Isometry := by
  rw [general_eq]
  exact (isometry_phase before).mul ((isometry_rotationY angle).mul (isometry_phase after))

/-- Every matrix on a target is an isometry. -/
theorem isometry_of_targetMatrix? {g : Gate ℝ} {m : Matrix2 (Complex ℝ)}
    (h : g.targetMatrix? = some m) : m.Isometry := by
  unfold Gate.targetMatrix? at h
  cases hk : g.kind <;> rw [hk] at h <;>
    simp only [Option.some.injEq, reduceCtorEq] at h <;> subst h
  case h => exact isometry_hadamard
  case sx => exact isometry_sqrtX
  case sxdg => exact isometry_sqrtXInverse
  case x | cx | ccx => exact isometry_pauliX
  case y | cy => exact isometry_pauliY
  case z | cz | ccz => exact isometry_pauliZ
  case id => exact isometry_identity
  case s => exact isometry_diagonal normSq_one normSq_i
  case sdg => exact isometry_diagonal normSq_one ((normSq_neg _).trans normSq_i)
  case t | tdg => exact isometry_phase _
  case p | u1 | cp | cu1 => exact isometry_phase _
  case rx | crx => exact isometry_rotationX _
  case ry | cry => exact isometry_rotationY _
  case rz | crz => exact isometry_diagonal (normSq_polar _) (normSq_polar _)
  case u2 => exact isometry_general _ _ _
  case u3 => exact isometry_general _ _ _

end OneQubit

section SeveralQubits

open QubitLab.Complex

/-- The inner product of two columns of an orthonormal matrix, as a sum over its rows. -/
theorem sum_of_orthonormal {m : Rows (Complex ℝ)} (hm : Orthonormal m) {j k : Nat}
    (hj : j < m.length) (hk : k < m.length) :
    ∑ r ∈ Finset.range m.length, conjHom ((m.getD r []).getD j 0) * (m.getD r []).getD k 0
      = if j = k then 1 else 0 := by
  have hcolumn : m.column k
      = (List.range m.length).map fun r => (m.getD r []).getD k 0 := by
    refine List.ext_getElem (by simp [Rows.column]) fun r hr _ => ?_
    rw [Rows.column, List.length_map] at hr
    simp [Rows.column, hr]
  rw [← hm j k hj hk, hcolumn, Rows.dot_range]
  refine Finset.sum_congr rfl fun r hr => ?_
  have hr' := Finset.mem_range.mp hr
  simp [Rows.column, hr', conjHom]

/-- A matrix with orthonormal columns keeps the norm of what it is applied to. -/
theorem normSq_sum_of_orthonormal {m : Rows (Complex ℝ)} (hm : Orthonormal m)
    (v : Nat → Complex ℝ) :
    ∑ r ∈ Finset.range m.length,
        (∑ c ∈ Finset.range m.length, (m.getD r []).getD c 0 * v c).normSq
      = ∑ c ∈ Finset.range m.length, (v c).normSq := by
  simp only [normSq_eq_re, ← map_sum]
  congr 1
  -- The columns are paired first, and then the sum is taken over the rows.
  have hrow : ∀ r, conjHom (∑ c ∈ Finset.range m.length, (m.getD r []).getD c 0 * v c)
        * ∑ d ∈ Finset.range m.length, (m.getD r []).getD d 0 * v d
      = ∑ c ∈ Finset.range m.length, ∑ d ∈ Finset.range m.length,
          conjHom (v c) * v d
            * (conjHom ((m.getD r []).getD c 0) * (m.getD r []).getD d 0) := by
    intro r
    rw [map_sum, Finset.sum_mul_sum]
    refine Finset.sum_congr rfl fun c _ => Finset.sum_congr rfl fun d _ => ?_
    rw [map_mul]
    ring
  rw [Finset.sum_congr rfl fun r _ => hrow r, Finset.sum_comm]
  refine Finset.sum_congr rfl fun c hc => ?_
  have hpair : ∀ d ∈ Finset.range m.length,
      ∑ r ∈ Finset.range m.length, conjHom (v c) * v d
          * (conjHom ((m.getD r []).getD c 0) * (m.getD r []).getD d 0)
        = if c = d then conjHom (v c) * v d else 0 := by
    intro d hd
    rw [← Finset.mul_sum,
      sum_of_orthonormal hm (Finset.mem_range.mp hc) (Finset.mem_range.mp hd), mul_ite, mul_one,
      mul_zero]
  -- Of the pairs of columns only the equal ones are left.
  rw [Finset.sum_comm, Finset.sum_congr rfl hpair, Finset.sum_ite_eq, if_pos hc]

end SeveralQubits

end Unitary

namespace Gate

/-- The matrix of a custom gate has orthonormal columns, with nothing rounded. -/
def ExactlyUnitary (g : Gate ℝ) : Prop :=
  g.kind = .custom → ∀ p, g.payload = some p → Unitary.Orthonormal p.matrix

/-- Every matrix over several qubits has orthonormal columns, those of the built-in kinds
    included. -/
theorem ExactlyUnitary.orthonormal {g : Gate ℝ} (hg : g.ExactlyUnitary) {m : Rows (Complex ℝ)}
    (hm : g.denseMatrix? = some m) : Unitary.Orthonormal m := by
  unfold denseMatrix? at hm
  split at hm
  · exact Option.some.inj hm ▸ Unitary.orthonormal_iswap
  · exact Option.some.inj hm ▸ Unitary.orthonormal_sqrtIswap
  · next hk =>
      rcases Option.map_eq_some_iff.mp hm with ⟨p, hp, rfl⟩
      exact hg hk p hp
  · exact absurd hm (by simp)

end Gate

end QubitLab
