import QubitLab.Complex

/-!
# Matrices

Two shapes of matrix are used. `Matrix2` is the two by two matrix that acts on a
single qubit. `Rows` is a matrix given row by row, of any side; since it may come
from outside, its rows may be ragged, and `Rows.isSquare` says when they are not.

## Main definitions

* `Matrix2`: A two by two matrix.
* `Matrix2.dagger`: The conjugate transpose.
* `Matrix2.maxDiff`: The largest distance between corresponding entries.
* `Rows`: A matrix as a list of rows.
* `Rows.isUnitary`: The columns are orthonormal up to a tolerance.
-/

namespace QubitLab

/-- A two by two matrix, entry by entry. -/
structure Matrix2 (K : Type) where
  /-- First row, first column. -/
  m00 : K
  /-- First row, second column. -/
  m01 : K
  /-- Second row, first column. -/
  m10 : K
  /-- Second row, second column. -/
  m11 : K
deriving Repr, BEq, DecidableEq

namespace Matrix2

section Algebra

variable {K : Type}

/-- The matrix product. -/
def mul [Add K] [Mul K] (a b : Matrix2 K) : Matrix2 K where
  m00 := a.m00 * b.m00 + a.m01 * b.m10
  m01 := a.m00 * b.m01 + a.m01 * b.m11
  m10 := a.m10 * b.m00 + a.m11 * b.m10
  m11 := a.m10 * b.m01 + a.m11 * b.m11

/-- The sum, entry by entry. -/
def add [Add K] (a b : Matrix2 K) : Matrix2 K where
  m00 := a.m00 + b.m00
  m01 := a.m01 + b.m01
  m10 := a.m10 + b.m10
  m11 := a.m11 + b.m11

/-- The matrix with the given diagonal. -/
def diagonal [Zero K] (a d : K) : Matrix2 K := ⟨a, 0, 0, d⟩

/-- The zero matrix. -/
def zero [Zero K] : Matrix2 K := ⟨0, 0, 0, 0⟩

/-- The entries, row by row. -/
def entries (m : Matrix2 K) : List K := [m.m00, m.m01, m.m10, m.m11]

/-- The matrix as a list of rows. -/
def toRows (m : Matrix2 K) : List (List K) := [[m.m00, m.m01], [m.m10, m.m11]]

end Algebra

variable {R : Type} [Scalar R]

/-- The conjugate transpose. -/
def dagger (m : Matrix2 (Complex R)) : Matrix2 (Complex R) where
  m00 := m.m00.conj
  m01 := m.m10.conj
  m10 := m.m01.conj
  m11 := m.m11.conj

/-- The product of every entry with a real scalar. -/
def scale (m : Matrix2 (Complex R)) (k : R) : Matrix2 (Complex R) where
  m00 := m.m00.scale k
  m01 := m.m01.scale k
  m10 := m.m10.scale k
  m11 := m.m11.scale k

/-- The largest distance between corresponding entries; a distance that is no
    number is passed over. -/
def maxDiff (a b : Matrix2 (Complex R)) : R :=
  (List.zipWith (fun x y => (x - y).norm) a.entries b.entries).foldl Scalar.larger 0

end Matrix2

/-- A matrix given as a list of rows, which may differ in length. -/
abbrev Rows (K : Type) := List (List K)

namespace Rows

/-- True when there are `side` rows of `side` entries each. -/
def isSquare {K : Type} (m : Rows K) (side : Nat) : Bool :=
  m.length == side && m.all (fun row => row.length == side)

/-- The first row that does not have `side` entries. -/
def firstRagged? {K : Type} (m : Rows K) (side : Nat) : Option (List K) :=
  m.find? (fun row => row.length != side)

/-- Column `j`, from the top; a row that is too short contributes zero. -/
def column {K : Type} [Zero K] (m : Rows K) (j : Nat) : List K :=
  m.map (fun row => row.getD j 0)

/-- A start value plus the products of corresponding entries, added from the left. -/
def dotFrom {K : Type} [Add K] [Mul K] (start : K) : List K → List K → K
  | a :: u, b :: v => dotFrom (start + a * b) u v
  | _, _ => start

/-- The sum of the products of corresponding entries, from the left. -/
def dot {K : Type} [Zero K] [Add K] [Mul K] (u v : List K) : K := dotFrom 0 u v

variable {R : Type} [Scalar R]

/-- True unless some inner product of two columns is further than `tolerance`
    from what orthonormal columns give. In an inner product the first column is
    conjugated. Only a distance that is greater than the tolerance counts against
    the matrix. -/
def isUnitary (m : Rows (Complex R)) (tolerance : R) : Bool :=
  let side := m.length
  let columns := ((List.range side).map m.column).zipIdx
  m.isSquare side &&
    columns.all fun u =>
      let conjugated := u.1.map Complex.conj
      columns.all fun v =>
        let expected : Complex R := if u.2 = v.2 then 1 else 0
        !Scalar.lt tolerance (dot conjugated v.1 - expected).norm

end Rows

end QubitLab
