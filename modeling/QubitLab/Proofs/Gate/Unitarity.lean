import QubitLab.Matrix

/-!
# What the check for unitarity says

The check goes over the columns of a matrix with their numbers attached. `isUnitary_iff` states
it by the numbers alone: the matrix is square, and no inner product of two columns deviates from
what orthonormal columns give by more than the tolerance. This is what it says over any
scalars. That a deviation which is not above the tolerance is within it is a matter of the
order of the scalars, and it fails where some of them are not comparable.

## Main definitions

* `Rows.deviation`: How far an inner product of two columns is from what it should be.

## Theorems

* `isUnitary_iff`: The check for unitarity.
-/

namespace QubitLab

namespace Rows

variable {R : Type} [Scalar R]

/-- How far the inner product of two columns is from what orthonormal columns give. -/
def deviation (m : Rows (Complex R)) (i j : Nat) : R :=
  (dot ((m.column i).map Complex.conj) (m.column j) - if i = j then 1 else 0).norm

/-- The columns of a matrix with their numbers. -/
theorem mem_zipIdx_columns (m : Rows (Complex R)) (column : List (Complex R)) (i : Nat) :
    (column, i) ∈ ((List.range m.length).map m.column).zipIdx ↔
      i < m.length ∧ column = m.column i := by
  rw [List.mem_zipIdx_iff_getElem?, List.getElem?_map]
  by_cases hi : i < m.length
  · rw [List.getElem?_range hi, Option.map_some, Option.some.injEq, eq_comm]
    exact (and_iff_right hi).symm
  · rw [List.getElem?_eq_none (by rw [List.length_range]; exact Nat.not_lt.mp hi)]
    exact iff_of_false nofun fun h => hi h.1

theorem isUnitary_iff (m : Rows (Complex R)) (tolerance : R) :
    m.isUnitary tolerance = true ↔ m.isSquare m.length = true ∧
      ∀ i < m.length, ∀ j < m.length, Scalar.lt tolerance (m.deviation i j) = false := by
  unfold isUnitary
  rw [Bool.and_eq_true, List.all_eq_true]
  refine and_congr_right fun _ => ⟨fun h i hi j hj => ?_, fun h u hu => ?_⟩
  · have hrow := h (m.column i, i) ((mem_zipIdx_columns m _ i).mpr ⟨hi, rfl⟩)
    have hentry := List.all_eq_true.mp hrow (m.column j, j)
      ((mem_zipIdx_columns m _ j).mpr ⟨hj, rfl⟩)
    exact (Bool.not_eq_true' _).mp hentry
  · refine List.all_eq_true.mpr fun v hv => ?_
    rcases u with ⟨column, i⟩
    rcases v with ⟨column', j⟩
    obtain ⟨hi, rfl⟩ := (mem_zipIdx_columns m column i).mp hu
    obtain ⟨hj, rfl⟩ := (mem_zipIdx_columns m column' j).mp hv
    exact (Bool.not_eq_true' _).mpr (h i hi j hj)

end Rows

end QubitLab
