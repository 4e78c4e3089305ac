import Mathlib.Tactic.IntervalCases
import QubitLab.Proofs.Exact.Complex
import QubitLab.Proofs.Gate.Action
import QubitLab.Proofs.Gate.Unitarity

/-!
# Exact gate matrices

Over exact scalars the entries of the gate matrices are what they stand for, and the
identities that hold of the matrices hold of the entries: rotations about an axis add
their angles, and the fixed matrices have the inverses that their names promise. All
of them come down to the addition theorems of sine and cosine, to the square root of
one half, and to the square of the imaginary unit.

The two matrices over two qubits have orthonormal columns. So they pass the check for
unitarity, which is the one check that a circuit leaves to the simulator.

## Main definitions

* `Unitary.Orthonormal`: The columns of a matrix are orthonormal.

## Theorems

* `rotationX_add`, `rotationY_add`, `rotationZ_add`, `phase_add`: Angles add up.
* `pauliX_mul_pauliX`, `hadamard_mul_hadamard`, …: Inverses.
* `orthonormal_iswap`, `orthonormal_sqrtIswap`: The matrices over two qubits.
* `isUnitary_of_orthonormal`: Orthonormal columns pass the check.
* `Gate.fixedUnitary`: They pass their check.
-/

namespace QubitLab

namespace Unitary

section Angles

theorem rotationX_add (x y : ℝ) :
    (rotationX y).mul (rotationX x) = rotationX (x + y) := by
  ext <;> simp [rotationX, Matrix2.mul, add_div, Real.cos_add, Real.sin_add] <;> ring

theorem rotationY_add (x y : ℝ) :
    (rotationY y).mul (rotationY x) = rotationY (x + y) := by
  ext <;> simp [rotationY, Matrix2.mul, add_div, Real.cos_add, Real.sin_add] <;> ring

theorem diagonal_mul (a b c d : Complex ℝ) :
    (⟨a, 0, 0, b⟩ : Matrix2 (Complex ℝ)).mul ⟨c, 0, 0, d⟩ = ⟨a * c, 0, 0, b * d⟩ := by
  simp only [Matrix2.mul, mul_zero, zero_mul, add_zero, zero_add]

/-- Rotations about the Z axis add their angles. -/
theorem rotationZ_add (x y : ℝ) :
    (rotationZ y).mul (rotationZ x) = rotationZ (x + y) := by
  have hneg : -y / Scalar.ofNat 2 + -x / Scalar.ofNat 2 = -(x + y) / Scalar.ofNat 2 := by ring
  have hpos : y / Scalar.ofNat 2 + x / Scalar.ofNat 2 = (x + y) / Scalar.ofNat 2 := by ring
  rw [rotationZ, rotationZ, diagonal_mul, Complex.polar_mul_polar, Complex.polar_mul_polar,
    hneg, hpos, rotationZ]

theorem phase_add (x y : ℝ) : (phase y).mul (phase x) = phase (x + y) := by
  rw [phase, phase, diagonal_mul, one_mul, Complex.polar_mul_polar, add_comm y, phase]

theorem phase_zero : phase (0 : ℝ) = identity := by
  rw [phase, Complex.polar_zero, identity]

end Angles

section Inverses

theorem pauliX_mul_pauliX : (pauliX : Matrix2 (Complex ℝ)).mul pauliX = identity := by
  ext <;> simp [pauliX, Matrix2.mul, identity]

theorem pauliY_mul_pauliY : (pauliY : Matrix2 (Complex ℝ)).mul pauliY = identity := by
  ext <;> simp [pauliY, Matrix2.mul, identity]

theorem pauliZ_mul_pauliZ : (pauliZ : Matrix2 (Complex ℝ)).mul pauliZ = identity := by
  ext <;> simp [pauliZ, Matrix2.mul, identity]

theorem sqrtHalf_mul_sqrtHalf : (sqrtHalf : ℝ) * sqrtHalf = 1 / 2 := by
  rw [sqrtHalf, Exact.half_eq, Exact.sqrt_eq]
  exact Real.mul_self_sqrt (by norm_num)

theorem hadamard_mul_hadamard : (hadamard : Matrix2 (Complex ℝ)).mul hadamard = identity := by
  ext <;> simp [hadamard, Matrix2.mul, identity, sqrtHalf_mul_sqrtHalf] <;> norm_num

theorem s_mul_sInverse : (s : Matrix2 (Complex ℝ)).mul sInverse = identity := by
  ext <;> simp [s, sInverse, Matrix2.mul, identity]

theorem sInverse_mul_s : (sInverse : Matrix2 (Complex ℝ)).mul s = identity := by
  ext <;> simp [s, sInverse, Matrix2.mul, identity]

theorem t_mul_tInverse : (t : Matrix2 (Complex ℝ)).mul tInverse = identity := by
  rw [t, tInverse, phase_add, neg_add_cancel, phase_zero]

theorem tInverse_mul_t : (tInverse : Matrix2 (Complex ℝ)).mul t = identity := by
  rw [t, tInverse, phase_add, add_neg_cancel, phase_zero]

theorem sqrtX_mul_sqrtXInverse :
    (sqrtX : Matrix2 (Complex ℝ)).mul sqrtXInverse = identity := by
  ext <;> simp [sqrtX, sqrtXInverse, Matrix2.mul, identity] <;> norm_num

theorem sqrtXInverse_mul_sqrtX :
    (sqrtXInverse : Matrix2 (Complex ℝ)).mul sqrtX = identity := by
  ext <;> simp [sqrtX, sqrtXInverse, Matrix2.mul, identity] <;> norm_num

end Inverses

section Checks

/-- The columns of a matrix are orthonormal, with nothing rounded. -/
def Orthonormal (m : Rows (Complex ℝ)) : Prop :=
  ∀ j k, j < m.length → k < m.length →
    Rows.dot ((m.column j).map Complex.conj) (m.column k) = if j = k then 1 else 0

/-- A matrix with orthonormal columns passes the check for unitarity. -/
theorem isUnitary_of_orthonormal {m : Rows (Complex ℝ)} {tolerance : ℝ} (ht : 0 < tolerance)
    (hside : m.isSquare m.length = true) (h : Orthonormal m) :
    m.isUnitary tolerance = true := by
  refine (m.isUnitary_iff tolerance).mpr ⟨hside, fun j hj k hk => ?_⟩
  -- The inner product is exactly what it should be, so the distance is zero.
  have hnorm : m.deviation j k = 0 := by
    rw [Rows.deviation, h j k hj hk, sub_self]
    simp [Complex.norm]
  rw [hnorm, ← Bool.not_eq_true, Exact.lt_iff]
  exact not_lt.mpr ht.le

/-- The matrix of `iswap` has orthonormal columns. -/
theorem orthonormal_iswap : Orthonormal iswap := by
  intro j k hj hk
  change j < 4 at hj
  change k < 4 at hk
  -- The sixteen pairs of columns, one by one.
  ext <;> interval_cases j <;> interval_cases k <;>
    simp [iswap, Rows.column, Rows.dot, Rows.dotFrom]

/-- The matrix of `sqiswap` has orthonormal columns. -/
theorem orthonormal_sqrtIswap : Orthonormal sqrtIswap := by
  intro j k hj hk
  change j < 4 at hj
  change k < 4 at hk
  ext <;> interval_cases j <;> interval_cases k <;>
    simp [sqrtIswap, Rows.column, Rows.dot, Rows.dotFrom, sqrtHalf_mul_sqrtHalf] <;> norm_num

theorem isUnitary_iswap :
    (iswap : Rows (Complex ℝ)).isUnitary Scalar.unitaryTolerance = true :=
  isUnitary_of_orthonormal Exact.unitaryTolerance_pos rfl orthonormal_iswap

theorem isUnitary_sqrtIswap :
    (sqrtIswap : Rows (Complex ℝ)).isUnitary Scalar.unitaryTolerance = true :=
  isUnitary_of_orthonormal Exact.unitaryTolerance_pos rfl orthonormal_sqrtIswap

end Checks

end Unitary

/-- Over exact scalars no gate is refused for its matrix. -/
theorem Gate.fixedUnitary (g : Gate ℝ) : g.FixedUnitary :=
  ⟨fun _ => Unitary.isUnitary_iswap, fun _ => Unitary.isUnitary_sqrtIswap⟩

end QubitLab
