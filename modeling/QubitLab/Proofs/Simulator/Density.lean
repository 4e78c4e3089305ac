import Mathlib.LinearAlgebra.Matrix.Hermitian
import Mathlib.LinearAlgebra.Matrix.Trace
import QubitLab.Proofs.Exact.Laws
import QubitLab.Proofs.Simulator.BitOrder
import QubitLab.Proofs.Statevector.Dense

/-!
# The density matrix

What a state answers to an observable is added up row by row, the density matrix is an outer
product, and the probabilities are taken from the amplitudes one by one. None of them is made
from another. Over scalars that obey the laws of a ring they are all read off one matrix, the
state times its adjoint: the probabilities are its diagonal, the squared norm is its trace,
and the expectation of an observable is the trace of its product with the observable.

On which side the conjugate stands, and whether rows or columns come first, makes no
difference for real states and for symmetric observables. It does for the others, so lists of
rows are turned into matrices here, and the rest is said of `Matrix.vecMulVec`.

Rows come from outside and may be ragged. They are looked at one after the other while the
sum is being made, and `Rows.misfit` is the number that the refusal tells.

## Main definitions

* `Rows.toMatrix`: The entries of a list of rows.
* `Rows.projector`: The observable that asks for one basis state.
* `Rows.misfit`: What shows that a list of rows has another shape.
* `Simulator.ket`: The amplitudes as a vector.

## Theorems

* `expectation_eq_error`: An observable of another shape is refused.
* `expectation_eq_dotProduct`: The sum over the rows is a product of vectors.
* `densityMatrix_eq_vecMulVec`: The rows of the density matrix are the outer product.
* `isHermitian_densityMatrix`, `densityMatrix_apply_self`, `trace_densityMatrix`: Its shape.
* `expectation_eq_trace`, `expectation_projector`: Observables by traces.
* `density_answers_queries`: The three kinds of questions have one answer.
-/

namespace QubitLab

namespace Rows

variable {K : Type}

/-- The entries of a list of rows as a matrix of so many rows and columns. -/
def toMatrix [Zero K] (m : Rows K) (side : Nat) : Matrix (Fin side) (Fin side) K :=
  Matrix.of fun r c => (m.getD r []).getD c 0

/-- The observable that is one on a basis state and zero on the others. -/
def projector [Zero K] [One K] (side i : Nat) : Rows K :=
  ofEntries side fun r c => if r = i ∧ c = i then 1 else 0

/-- The number that shows that there are not `side` rows of `side` entries each: the number of
    rows, or else the length of the first row that differs. -/
def misfit (m : Rows K) (side : Nat) : Nat :=
  if m.length ≠ side then m.length else ((m.firstRagged? side).map List.length).getD side

theorem toMatrix_ofEntries [Zero K] (side : Nat) (entry : Nat → Nat → K) :
    (ofEntries side entry).toMatrix side = Matrix.of fun r c : Fin side => entry r c :=
  Matrix.ext fun r c => getD_ofEntries r.isLt c.isLt entry

theorem isSquare_projector [Zero K] [One K] (side i : Nat) :
    (projector side i : Rows K).isSquare side = true :=
  isSquare_ofEntries side _

theorem toMatrix_projector [Zero K] [One K] {side : Nat} (i : Fin side) :
    (projector side i : Rows K).toMatrix side = Matrix.single i i 1 := by
  rw [projector, toMatrix_ofEntries]
  refine Matrix.ext fun r c => ?_
  simp only [Matrix.of_apply, Matrix.single_apply, Fin.val_inj, eq_comm]

section Shapes

variable {m : Rows K} {side : Nat}

theorem isSquare_iff : m.isSquare side = true ↔ m.length = side ∧ ∀ row ∈ m, row.length = side := by
  simp [isSquare]

/-- When the number of rows is right, it is the length of some row that is wrong. -/
theorem exists_firstRagged? (h : m.isSquare side = false) (hlen : m.length = side) :
    ∃ row, m.firstRagged? side = some row ∧ row.length ≠ side ∧ m.misfit side = row.length := by
  cases hragged : m.firstRagged? side with
  | none =>
      have hrows : ∀ row ∈ m, row.length = side := by simpa [firstRagged?] using hragged
      rw [isSquare_iff.mpr ⟨hlen, hrows⟩] at h
      exact absurd h.symm Bool.false_ne_true
  | some row =>
      have hne : row.length ≠ side := by simpa using List.find?_some hragged
      refine ⟨row, rfl, hne, ?_⟩
      rw [misfit, if_neg (not_not_intro hlen), hragged, Option.map_some, Option.getD_some]

/-- The number does not fit, unless everything does. -/
theorem misfit_ne (h : m.isSquare side = false) : m.misfit side ≠ side := by
  by_cases hlen : m.length = side
  · rcases exists_firstRagged? h hlen with ⟨row, -, hne, hmisfit⟩
    rwa [hmisfit]
  · rwa [misfit, if_pos hlen]

/-- As many rows as there are amplitudes, each with its amplitude. -/
theorem zip_toList [Zero K] {s : Buffer K} (hlen : m.length = s.size) :
    m.zip s.toList = (List.range s.size).map fun i => (m.getD i [], s.amplitude i) := by
  have hrows : m = (List.range s.size).map fun i => m.getD i [] := by
    refine List.ext_getElem (by simp [hlen]) fun i hi _ => ?_
    simp [hi]
  rw [Buffer.toList_eq_map_amplitude]
  -- Only the list itself is to be written as a map, not the rows that the map reads.
  conv => lhs; rw [hrows]
  exact List.zip_map'

end Shapes

end Rows

namespace Simulator

variable {R G : Type} [Scalar R] {s : Simulator R G}

section Refusals

/-- The rows are gone through one by one, up to the first that does not fit. -/
theorem expectationFrom_of_ragged {state amplitudes row : List (Complex R)}
    {rows : Rows (Complex R)} (hlen : rows.length = amplitudes.length)
    (h : rows.firstRagged? state.length = some row) (total : Complex R) :
    expectationFrom state total (rows.zip amplitudes)
      = .error (.dimensionMismatch state.length row.length) := by
  induction rows generalizing amplitudes total with
  | nil => exact absurd h (by simp [Rows.firstRagged?])
  | cons first rest ih =>
      cases amplitudes with
      | nil => exact absurd hlen (by simp)
      | cons a amplitudes =>
          rw [List.zip_cons_cons, expectationFrom]
          -- The rows that fit are added up and left behind.
          by_cases hfits : first.length = state.length
          · rw [if_neg (not_not_intro hfits)]
            rw [Rows.firstRagged?, List.find?_cons_of_neg (by simpa using hfits)] at h
            exact ih (by simpa using hlen) h _
          · rw [Rows.firstRagged?, List.find?_cons_of_pos (by simpa using hfits),
              Option.some.injEq] at h
            rw [if_pos hfits, h]

/-- An observable that does not fit is refused, with the number that does not fit. -/
theorem expectation_eq_error {observable : Rows (Complex R)}
    (h : observable.isSquare s.buffer.size = false) :
    s.expectation observable
      = .error (.dimensionMismatch s.buffer.size (observable.misfit s.buffer.size)) := by
  unfold expectation
  simp only [Array.length_toList]
  by_cases hlen : observable.length = s.buffer.size
  · rcases Rows.exists_firstRagged? h hlen with ⟨row, hragged, -, hmisfit⟩
    rw [← Array.length_toList] at hragged
    rw [if_neg (not_not_intro hlen), expectationFrom_of_ragged (by simpa using hlen) hragged,
      hmisfit, Array.length_toList]
    rfl
  · rw [if_pos hlen, Rows.misfit, if_pos hlen]

end Refusals

section Answers

/-- There is a density matrix just when its bytes can be addressed, and then it is the outer
    product. -/
theorem densityMatrix_eq_ok_iff {ρ : Rows (Complex R)} :
    s.densityMatrix = .ok ρ ↔
      s.buffer.size * s.buffer.size * Statevector.amplitudeBytes ≤ Statevector.addressableBytes ∧
        ρ = Rows.ofEntries s.buffer.size fun i j =>
          s.buffer.amplitude i * (s.buffer.amplitude j).conj := by
  unfold densityMatrix
  simp only [Array.length_toList, ← not_le]
  split
  case isTrue h =>
    simp [h]
  case isFalse h =>
    rw [not_not] at h
    simp only [Except.ok.injEq, h, true_and, Buffer.toList_eq_map_amplitude, List.map_map]
    exact eq_comm

/-- Rows that fit are added up, each against the state and times the conjugate of an
    amplitude. -/
theorem expectationFrom_of_fits {state : List (Complex R)}
    {rows : List (List (Complex R) × Complex R)} (h : ∀ p ∈ rows, p.1.length = state.length)
    (total : Complex R) :
    expectationFrom state total rows
      = .ok (rows.foldl (fun acc p => acc + p.2.conj * Rows.dot p.1 state) total) := by
  induction rows generalizing total with
  | nil => rfl
  | cons p rest ih =>
      rw [expectationFrom, if_neg (not_not_intro (h p List.mem_cons_self)),
        ih fun x hx => h x (List.mem_cons_of_mem p hx), List.foldl_cons]

end Answers

section Exact

variable [LawfulScalar R]

attribute [local instance] LawfulScalar.ring LawfulScalar.complexRing LawfulScalar.starRing

open Matrix

/-- The amplitudes as a vector. -/
def ket (s : Simulator R G) : Fin s.buffer.size → Complex R := fun i => s.buffer.amplitude i

/-- The sum over the rows is a product of vectors. -/
theorem expectation_eq_dotProduct {observable : Rows (Complex R)}
    (h : observable.isSquare s.buffer.size = true) :
    s.expectation observable
      = .ok (star s.ket ⬝ᵥ observable.toMatrix s.buffer.size *ᵥ s.ket).re := by
  rcases Rows.isSquare_iff.mp h with ⟨hlen, hrows⟩
  have hfits : ∀ p ∈ observable.zip s.buffer.toList, p.1.length = s.buffer.toList.length := by
    intro p hp
    rw [Array.length_toList]
    exact hrows p.1 (List.of_mem_zip hp).1
  -- Both sides are sums over the rows, in the same order.
  unfold expectation
  simp only [Array.length_toList]
  rw [if_neg (not_not_intro hlen), expectationFrom_of_fits hfits, Rows.zip_toList hlen,
    List.foldl_map, Buffer.foldl_range_eq_sum, Except.map, ← Fin.sum_univ_eq_sum_range]
  congr 2
  refine Finset.sum_congr rfl fun i _ => ?_
  rw [Buffer.toList_eq_map_amplitude, Rows.dot_range, ← Fin.sum_univ_eq_sum_range]
  rfl

/-- The density matrix is the state times its adjoint. -/
theorem densityMatrix_eq_vecMulVec {ρ : Rows (Complex R)} (h : s.densityMatrix = .ok ρ) :
    ρ.toMatrix s.buffer.size = vecMulVec s.ket (star s.ket) := by
  rw [(densityMatrix_eq_ok_iff.mp h).2, Rows.toMatrix_ofEntries]
  rfl

/-- The density matrix is its own conjugate transpose. -/
theorem isHermitian_densityMatrix {ρ : Rows (Complex R)} (h : s.densityMatrix = .ok ρ) :
    (ρ.toMatrix s.buffer.size).IsHermitian := by
  rw [densityMatrix_eq_vecMulVec h, IsHermitian, conjTranspose_vecMulVec, star_star]

/-- The diagonal holds the probabilities. -/
theorem densityMatrix_apply_self {ρ : Rows (Complex R)} (h : s.densityMatrix = .ok ρ)
    (i : Fin s.buffer.size) :
    ρ.toMatrix s.buffer.size i i = Complex.ofReal (s.buffer.amplitude i).normSq := by
  rw [densityMatrix_eq_vecMulVec h]
  exact Complex.mul_conj (s.ket i)

/-- The trace is the squared norm. -/
theorem trace_densityMatrix {ρ : Rows (Complex R)} (h : s.densityMatrix = .ok ρ) :
    (ρ.toMatrix s.buffer.size).trace = Complex.ofReal s.normSq := by
  have hfold : s.normSq = ∑ i : Fin s.buffer.size, (s.buffer.amplitude i).normSq := by
    rw [normSq, Buffer.normSq_eq_foldl, Buffer.foldl_range_eq_sum,
      Fin.sum_univ_eq_sum_range fun i => (s.buffer.amplitude i).normSq]
  rw [hfold, Complex.ofReal_sum]
  exact Finset.sum_congr rfl fun i _ => densityMatrix_apply_self h i

/-- The expectation of an observable is the trace of its product with the density matrix. -/
theorem expectation_eq_trace {ρ observable : Rows (Complex R)} (h : s.densityMatrix = .ok ρ)
    (hsquare : observable.isSquare s.buffer.size = true) :
    s.expectation observable
      = .ok (ρ.toMatrix s.buffer.size * observable.toMatrix s.buffer.size).trace.re := by
  -- The observable moves over to the conjugated factor of the outer product, and the trace of an
  -- outer product is the product of its factors.
  rw [expectation_eq_dotProduct hsquare, densityMatrix_eq_vecMulVec h, vecMulVec_mul,
    trace_vecMulVec, dotProduct_mulVec, dotProduct_comm]

/-- A projector on a basis state expects what the probability of this state is. -/
theorem expectation_projector {i : Nat} (hi : i < s.buffer.size) :
    s.expectation (Rows.projector s.buffer.size i) = s.probabilityOfIndex i := by
  rw [expectation_eq_dotProduct (Rows.isSquare_projector s.buffer.size i),
    probabilityOfIndex_eq hi, Rows.toMatrix_projector ⟨i, hi⟩, single_mulVec_eq, one_mul,
    dotProduct_smul, dotProduct_single_one]
  exact congrArg (fun z => Except.ok z.re) (Complex.mul_conj (s.ket ⟨i, hi⟩))

/-- Observables, the density matrix and the probabilities agree. There is a density matrix
    whenever one can be addressed. It is its own adjoint, it has the probabilities of the basis
    states on its diagonal, their sum is the squared norm of the state, and the expectation of
    an observable is the trace of its product with the density matrix. A list of rows of any
    other shape is no observable, wherever it does not fit, and the one that projects on a basis
    state expects its probability. -/
theorem density_answers_queries {n : Nat} (hbuf : s.buffer.size = 2 ^ n) :
    ((∃ ρ, s.densityMatrix = .ok ρ) ↔
      2 ^ n * 2 ^ n * Statevector.amplitudeBytes ≤ Statevector.addressableBytes) ∧
    (∀ ρ, s.densityMatrix = .ok ρ →
      ρ.isSquare (2 ^ n) = true ∧
        (ρ.toMatrix (2 ^ n)).IsHermitian ∧
        (∀ i : Fin (2 ^ n), ∃ p, s.probabilityOfIndex i = .ok p ∧
          ρ.toMatrix (2 ^ n) i i = Complex.ofReal p) ∧
        (ρ.toMatrix (2 ^ n)).trace = Complex.ofReal s.normSq ∧
        ∀ observable : Rows (Complex R), observable.isSquare (2 ^ n) = true →
          s.expectation observable
            = .ok (ρ.toMatrix (2 ^ n) * observable.toMatrix (2 ^ n)).trace.re) ∧
    (∀ observable : Rows (Complex R), observable.isSquare (2 ^ n) = false →
      observable.misfit (2 ^ n) ≠ 2 ^ n ∧
        s.expectation observable
          = .error (.dimensionMismatch (2 ^ n) (observable.misfit (2 ^ n)))) ∧
    ∀ i, i < 2 ^ n →
      s.expectation (Rows.projector (2 ^ n) i) = s.probabilityOfIndex i := by
  rw [← hbuf]
  refine ⟨⟨?_, ?_⟩, fun ρ h => ⟨?_, isHermitian_densityMatrix h, fun i => ?_,
    trace_densityMatrix h, fun _ => expectation_eq_trace h⟩, fun observable h => ?_,
    fun _ => expectation_projector⟩
  · rintro ⟨ρ, h⟩
    exact (densityMatrix_eq_ok_iff.mp h).1
  · exact fun hfits => ⟨_, densityMatrix_eq_ok_iff.mpr ⟨hfits, rfl⟩⟩
  · exact (densityMatrix_eq_ok_iff.mp h).2 ▸ Rows.isSquare_ofEntries s.buffer.size _
  · exact ⟨_, probabilityOfIndex_eq i.isLt, densityMatrix_apply_self h i⟩
  · exact ⟨Rows.misfit_ne h, expectation_eq_error h⟩

/-- A qubit with a phase, which tells an observable from its transpose. -/
noncomputable def phased : Simulator ℝ Unit where
  numQubits := 1
  buffer := #[1, Complex.i]
  snapshots := .empty
  noise := none
  generator := ()

theorem phased_density_answers :
    phased.buffer.size = 2 ^ 1 ∧
      (∃ ρ, phased.densityMatrix = .ok ρ ∧ (ρ.toMatrix 2).IsHermitian ∧
        (ρ.toMatrix 2).trace = Complex.ofReal phased.normSq ∧
        phased.expectation Unitary.pauliY.toRows
          = .ok (ρ.toMatrix 2 * Rows.toMatrix Unitary.pauliY.toRows 2).trace.re) ∧
      phased.expectation [[1, 0], [0]] = .error (.dimensionMismatch 2 1) ∧
      phased.expectation (Rows.projector 2 1) = phased.probabilityOfIndex 1 := by
  have hbuf : phased.buffer.size = 2 ^ 1 := rfl
  rcases density_answers_queries hbuf with ⟨hexists, hdensity, hragged, hprojector⟩
  rcases hexists.mpr (by decide) with ⟨ρ, h⟩
  rcases hdensity ρ h with ⟨-, hhermitian, -, htrace, hexpectation⟩
  exact ⟨hbuf, ⟨ρ, h, hhermitian, htrace, hexpectation _ rfl⟩, (hragged [[1, 0], [0]] rfl).2,
    hprojector 1 (by decide)⟩

end Exact

end Simulator

end QubitLab
