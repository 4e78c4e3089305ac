import QubitLab.Proofs.Statevector.Pointwise

/-!
# Sizes of buffers

No update changes the number of amplitudes. The kernels write in place, and what divides a
buffer or takes a part of it away does so amplitude by amplitude. Nothing is asked of the
arithmetic.

## Theorems

* `size_ground`, `size_applyMatrix`, `size_collapse`, `size_rescale`: The buffers that are
  made of other buffers.
* `fst_rescale`: The norm that a buffer is divided by.
-/

namespace QubitLab

namespace Buffer

variable {R : Type} [Scalar R] {s : Buffer (Complex R)}

theorem size_ground (amplitudes : Nat) :
    (ground amplitudes : Buffer (Complex R)).size = amplitudes := by
  rw [ground, Array.size_setIfInBounds, Array.size_replicate]

theorem size_applyMatrix (q : Nat) (m : Matrix2 (Complex R)) :
    (s.applyMatrix q m).size = s.size :=
  GateAction.size_apply (.matrix [] q m) s

theorem size_collapse (q : Nat) (outcome : Bool) (p : R) :
    (s.collapse q outcome p).size = s.size := by
  rw [collapse, Array.size_mapIdx]

/-- Dividing by the norm keeps the number of amplitudes, whether it is done or not. -/
theorem size_rescale (zeroNorm : R) : (s.rescale zeroNorm).2.size = s.size := by
  unfold rescale
  dsimp only
  split
  · exact Array.size_map
  · rfl

/-- The norm that is reported is the one before. -/
theorem fst_rescale (zeroNorm : R) : (s.rescale zeroNorm).1 = s.normSq := by
  unfold rescale
  dsimp only
  split <;> rfl

end Buffer

end QubitLab
