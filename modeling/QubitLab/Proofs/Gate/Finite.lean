import QubitLab.Proofs.Double.Finite
import QubitLab.Proofs.Gate.Action
import QubitLab.Proofs.Gate.Unitarity
import QubitLab.Proofs.Json.Lossless

/-!
# Which numbers are let in

The angles of a gate and the entries of a noise matrix are checked one by one, and those that
are let in are finite. The entries of a matrix over qubits are not checked. They go into inner
products of columns, and the matrix is refused when one of these is too far from what it should
be.

Nothing that goes into an inner product is lost, so an infinity in a column leaves the inner
product of this column with itself either infinite, which is too far, or no number. And what is no
number is not too far from anything, since it compares with nothing. So the check does not say
that all deviations are within the tolerance: it says so of those that are numbers. A matrix that
passes has finite entries wherever the inner product of the column with itself is a number, and
anything at all in the other columns.

## Main definitions

* `Rows.Finite`: All entries are finite.
* `Rows.Measured`: All deviations are numbers.
* `Rows.FiniteColumns`: The entries of a column are finite if its deviation is a number.
* `Gate.LetsIn`: Which numbers are let in.

## Theorems

* `finite_of_dotFrom`: What goes into an inner product that is finite.
* `finite_column`: A column whose inner product with itself is not too far off.
* `isUnitary_double_iff`: What the check for unitarity says.
* `accepted_numbers`: Which numbers the constructors and checks let in.
-/

namespace QubitLab

namespace Complex

variable {a b : Complex Float}

theorem finite_iff : a.isFinite = true ↔ a.re.isFinite = true ∧ a.im.isFinite = true :=
  Bool.and_eq_true_iff

/-- A sum that is finite is one of finite numbers. -/
theorem finite_of_add (h : (a + b).isFinite = true) : a.isFinite = true ∧ b.isFinite = true := by
  rcases finite_iff.mp h with ⟨hre, him⟩
  rcases Double.isFinite_of_add hre with ⟨ha, hb⟩
  rcases Double.isFinite_of_add him with ⟨ha', hb'⟩
  exact ⟨finite_iff.mpr ⟨ha, ha'⟩, finite_iff.mpr ⟨hb, hb'⟩⟩

theorem finite_of_sub (h : (a - b).isFinite = true) : a.isFinite = true := by
  rcases finite_iff.mp h with ⟨hre, him⟩
  exact finite_iff.mpr ⟨(Double.isFinite_of_sub hre).1, (Double.isFinite_of_sub him).1⟩

/-- The real part of a product has all four parts of the factors in it. -/
theorem finite_of_mul (h : (a * b).isFinite = true) : a.isFinite = true ∧ b.isFinite = true := by
  rcases Double.isFinite_of_sub (finite_iff.mp h).1 with ⟨hre, him⟩
  rcases Double.isFinite_of_mul hre with ⟨ha, hb⟩
  rcases Double.isFinite_of_mul him with ⟨ha', hb'⟩
  exact ⟨finite_iff.mpr ⟨ha, ha'⟩, finite_iff.mpr ⟨hb, hb'⟩⟩

end Complex

namespace Rows

/-- A sum of products that is finite has a finite start value and finite second factors. -/
theorem finite_of_dotFrom {start : Complex Float} {u v : List (Complex Float)}
    (hlen : u.length = v.length) (h : (dotFrom start u v).isFinite = true) :
    start.isFinite = true ∧ ∀ b ∈ v, b.isFinite = true := by
  induction u generalizing start v with
  | nil =>
      rw [List.length_eq_zero_iff.mp hlen.symm] at h ⊢
      exact ⟨h, List.forall_mem_nil _⟩
  | cons a u ih =>
      rcases v with _ | ⟨b, v⟩
      · exact absurd hlen (Nat.succ_ne_zero _)
      · -- The next start value has the first product in it.
        rcases ih (Nat.succ.inj hlen) h with ⟨hstart, hv⟩
        rcases Complex.finite_of_add hstart with ⟨hstart, hproduct⟩
        exact ⟨hstart, List.forall_mem_cons.mpr ⟨(Complex.finite_of_mul hproduct).2, hv⟩⟩

variable {m : Rows (Complex Float)} {tolerance : Float}

/-- All entries are finite. -/
def Finite (m : Rows (Complex Float)) : Prop := ∀ row ∈ m, ∀ z ∈ row, z.isFinite = true

/-- All deviations of inner products are numbers. -/
def Measured (m : Rows (Complex Float)) : Prop :=
  ∀ i < m.length, ∀ j < m.length, (m.deviation i j).isNaN = false

/-- The entries of a column are finite if its inner product with itself deviates by a number. -/
def FiniteColumns (m : Rows (Complex Float)) : Prop :=
  ∀ j < m.length, (m.deviation j j).isNaN = false →
    ∀ row ∈ m, ∀ z, row[j]? = some z → z.isFinite = true

/-- A column has finite entries when its inner product with itself is a number and not too far
    off. -/
theorem finite_column (ht : tolerance.isFinite = true) {j : Nat}
    (hnear : Scalar.lt tolerance (m.deviation j j) = false)
    (hnumber : (m.deviation j j).isNaN = false) : ∀ z ∈ m.column j, z.isFinite = true := by
  have hparts : (dot ((m.column j).map Complex.conj) (m.column j) - 1).isFinite = true := by
    by_contra hnot
    have hdev : m.deviation j j
        = (dot ((m.column j).map Complex.conj) (m.column j) - 1).norm := by
      rw [deviation, if_pos rfl]
    rw [hdev] at hnear hnumber
    rcases Double.hypotenuse_of_not_finite (mt Complex.finite_iff.mpr hnot) with hnan | habove
    · exact Bool.false_ne_true (hnumber.symm.trans hnan)
    · exact Bool.false_ne_true (hnear.symm.trans (habove tolerance ht))
  exact (finite_of_dotFrom (List.length_map _) (Complex.finite_of_sub hparts)).2

/-- A matrix that passes has finite entries in every column whose deviation is a number. -/
theorem finiteColumns_of_isUnitary (ht : tolerance.isFinite = true)
    (h : m.isUnitary tolerance = true) : m.FiniteColumns := by
  intro j hj hnumber row hrow z hz
  refine finite_column ht (((m.isUnitary_iff tolerance).mp h).2 j hj j hj) hnumber z ?_
  refine List.mem_map.mpr ⟨row, hrow, ?_⟩
  rw [List.getD_eq_getElem?_getD, hz, Option.getD_some]

/-- In a square matrix every entry is in a column that has a deviation. -/
theorem FiniteColumns.finite (h : m.FiniteColumns) (hside : m.isSquare m.length = true)
    (hm : m.Measured) : m.Finite := by
  intro row hrow z hz
  rcases List.getElem?_of_mem hz with ⟨j, hj⟩
  have hlength : row.length = m.length :=
    eq_of_beq (List.all_eq_true.mp (Bool.and_eq_true_iff.mp hside).2 row hrow)
  have hlt : j < m.length := hlength ▸ (List.getElem?_eq_some_iff.mp hj).1
  exact h j hlt (hm j hlt j hlt) row hrow z hj

/-- The check for unitarity lets deviations pass that are within the tolerance, and those that
    are no number. -/
theorem isUnitary_double_iff (ht : tolerance.isNaN = false) :
    m.isUnitary tolerance = true ↔ m.isSquare m.length = true ∧
      ∀ i < m.length, ∀ j < m.length,
        Scalar.le (m.deviation i j) tolerance = true ∨ (m.deviation i j).isNaN = true := by
  simp only [isUnitary_iff, Double.not_above_iff ht]

end Rows

namespace NoiseModel

theorem customMatrix_eq_ok {rows : Rows (Complex Float)} {m : Matrix2 (Complex Float)}
    (h : customMatrix rows = .ok m) : m.toRows = rows ∧ checkCustom m = .ok () := by
  unfold customMatrix at h
  rw [Checks.check_bind_eq_ok] at h
  rcases h with ⟨-, h⟩
  split at h
  · next a b c d =>
      rcases (Checks.check_bind_eq_ok _ _ _).mp h with ⟨hcheck, hm⟩
      obtain rfl := (Checks.pure_eq_ok _ _).mp hm
      exact ⟨rfl, hcheck⟩
  · exact absurd h (by simp only [reduceCtorEq, not_false_eq_true])

/-- A noise matrix that is let in is kept as it is, and its entries are finite. -/
theorem finite_of_withCustom {model model' : NoiseModel Float} {rows : Rows (Complex Float)}
    (h : model.withCustom rows = .ok model') :
    model'.custom.map Matrix2.toRows = some rows ∧ rows.Finite := by
  rcases (Checks.bind_eq_ok _ _ _).mp h with ⟨m, hm, hmodel⟩
  obtain rfl := (Checks.pure_eq_ok _ _).mp hmodel
  rcases customMatrix_eq_ok hm with ⟨rfl, hcheck⟩
  refine ⟨rfl, fun row hrow z hz => isFinite_of_checkCustom hcheck z ?_⟩
  -- The entries are those of the two rows.
  exact List.mem_flatten_of_mem hrow hz

end NoiseModel

namespace Gate

theorem unitaryTolerance_finite :
    (Scalar.unitaryTolerance : Float).isFinite = true := by decide +kernel

/-- Which numbers are let in, for a matrix from outside and a tolerance. -/
structure LetsIn (m : Rows (Complex Float)) (tolerance : Float) : Prop where
  /-- The angles of a gate are finite. -/
  angles : ∀ kind qubits params (g : Gate Float), builtin kind qubits params = .ok g →
    ∀ x ∈ g.params, x.isFinite = true
  /-- So are the entries of a noise matrix. -/
  noise : ∀ model model' : NoiseModel Float, model.withCustom m = .ok model' →
    model'.custom.map Matrix2.toRows = some m ∧ m.Finite
  /-- A matrix is found to be unitary when it is square and every deviation is within the
      tolerance or no number. -/
  unitary : m.isUnitary tolerance = true ↔ m.isSquare m.length = true ∧
    ∀ i < m.length, ∀ j < m.length,
      Scalar.le (m.deviation i j) tolerance = true ∨ (m.deviation i j).isNaN = true
  /-- In the matrix of a custom gate the entries of a column are finite if its own deviation is
      a number. -/
  gate : ∀ name qubits g, custom name m qubits = .ok g →
    g.payload = some ⟨name, m⟩ ∧ m.FiniteColumns
  /-- So they are in a matrix that is about to be applied. -/
  dense : ∀ width, (checkDense m width : Except (Error Float) Unit) = .ok () → m.FiniteColumns
  /-- Where all deviations are numbers, what is found to be unitary is within the tolerance, and
      all entries that are let in are finite. -/
  measured : m.Measured →
    (m.isUnitary tolerance = true → m.isSquare m.length = true ∧
      ∀ i < m.length, ∀ j < m.length, Scalar.le (m.deviation i j) tolerance = true) ∧
    (∀ name qubits g, custom name m qubits = .ok g → m.Finite) ∧
    (∀ width, (checkDense m width : Except (Error Float) Unit) = .ok () → m.Finite)

/-- Angles and noise matrices are finite in any case. For a matrix over qubits the deviations have
    to be numbers, and the checks do not ask for that. -/
theorem accepted_numbers (m : Rows (Complex Float)) {tolerance : Float}
    (ht : tolerance.isNaN = false) : LetsIn m tolerance := by
  have hcolumns : m.isUnitary Scalar.unitaryTolerance = true → m.FiniteColumns :=
    Rows.finiteColumns_of_isUnitary unitaryTolerance_finite
  have hgate : ∀ name qubits (g : Gate Float), custom name m qubits = .ok g →
      m.isUnitary Scalar.unitaryTolerance = true ∧ g.payload = some ⟨name, m⟩ := by
    intro name qubits g h
    obtain ⟨-, -, -, hunitary, rfl⟩ := (custom_eq_ok name m qubits g).mp h
    exact ⟨hunitary, rfl⟩
  have hdense : ∀ width, (checkDense m width : Except (Error Float) Unit) = .ok () →
      m.isUnitary Scalar.unitaryTolerance = true := fun width h =>
    ((checkDense_eq_ok m width).mp h).2
  have hfinite : m.Measured → m.isUnitary Scalar.unitaryTolerance = true → m.Finite :=
    fun hm hunitary => (hcolumns hunitary).finite ((m.isUnitary_iff _).mp hunitary).1 hm
  have hunitary := Rows.isUnitary_double_iff (m := m) ht
  refine ⟨fun kind qubits params g h => ?_, fun model model' h => model.finite_of_withCustom h,
    hunitary, fun name qubits g h => ?_, fun width h => hcolumns (hdense width h),
    fun hm => ⟨fun h => ?_, ?_, ?_⟩⟩
  · obtain ⟨-, hparams, -, rfl⟩ := (builtin_eq_ok kind qubits params g).mp h
    exact ((checkParams_eq_ok kind params).mp hparams).2
  · rcases hgate name qubits g h with ⟨hpassed, hpayload⟩
    exact ⟨hpayload, hcolumns hpassed⟩
  · rcases hunitary.mp h with ⟨hside, hnear⟩
    refine ⟨hside, fun i hi j hj => (hnear i hi j hj).resolve_right fun hnan => ?_⟩
    exact Bool.false_ne_true ((hm i hi j hj).symm.trans hnan)
  · exact fun name qubits g h => hfinite hm (hgate name qubits g h).1
  · exact fun width h => hfinite hm (hdense width h)

/-- The exchange of the two basis states. -/
def flipMatrix : Rows (Complex Float) := [[0, 1], [1, 0]]

theorem flip_finite :
    custom "flip" flipMatrix [0] = .ok ⟨.custom, [0], [], some ⟨"flip", flipMatrix⟩⟩ ∧
      flipMatrix.Finite := by
  have hmade : custom "flip" flipMatrix [0]
      = .ok ⟨.custom, [0], [], some ⟨"flip", flipMatrix⟩⟩ := by
    decide +kernel
  have hmeasured : flipMatrix.Measured := by
    change ∀ i < 2, ∀ j < 2, (flipMatrix.deviation i j).isNaN = false
    decide +kernel
  have hletsIn : LetsIn flipMatrix Scalar.unitaryTolerance :=
    accepted_numbers flipMatrix (by decide +kernel)
  exact ⟨hmade, (hletsIn.measured hmeasured).2.1 "flip" [0] _ hmade⟩

/-- What is no number. -/
def undefinedNumber : Float := 0.0 / 0.0

/-- A diagonal matrix without a number on its diagonal. -/
def blurredMatrix : Rows (Complex Float) :=
  [[⟨undefinedNumber, 0⟩, 0], [0, ⟨undefinedNumber, 0⟩]]

/-- The matrix is let in as that of a gate, and as one over a qubit. -/
theorem blurred_accepted :
    custom "blur" blurredMatrix [0] = .ok ⟨.custom, [0], [], some ⟨"blur", blurredMatrix⟩⟩ ∧
      (checkDense blurredMatrix 1 : Except (Error Float) Unit) = .ok () ∧
      blurredMatrix.isUnitary Scalar.unitaryTolerance = true ∧
      Scalar.le (blurredMatrix.deviation 0 0) Scalar.unitaryTolerance = false ∧
      undefinedNumber.isFinite = false := by
  decide +kernel

end Gate

end QubitLab
