import FluxBalance.DenseMatrix.RowOps

/-!
# Determinants

The determinant comes from a triangular factor. Gaussian elimination with the largest pivot of
each column leaves its diagonal, and `Scalar.ofPivots` makes a number of the diagonal and of
the parity of the row exchanges.
-/

namespace FluxBalance

namespace DenseMatrix

variable {α : Type} [Scalar α]

/-! ### Pivots -/

/-- Whether `y` is to be preferred to `x` as a pivot: it is larger in magnitude, or it is
undefined and `x` is not. -/
def isBetterPivot (x y : α) : Bool :=
  Scalar.lt (Scalar.abs x) (Scalar.abs y) || (Scalar.isNaN y && !Scalar.isNaN x)

/-- The first row at or below row `k` whose entry in column `k` has the largest magnitude. -/
def pivotRow (A : DenseMatrix α) (k : Nat) : Nat :=
  ((List.range A.rows).drop (k + 1)).foldl
    (fun best r => if isBetterPivot (A.entry best k) (A.entry r k) then r else best) k

/-! ### Triangular factors -/

/-- An entry divided by a pivot: multiplied by the reciprocal of the pivot where that is
finite. -/
def overPivot (x pivot : α) : α :=
  let reciprocal := 1 / pivot
  if Scalar.isFinite reciprocal then x * reciprocal else x / pivot

/-- Clears column `k` below row `k` with multiples of row `k`. -/
def clearBelow (A : DenseMatrix α) (k : Nat) : DenseMatrix α :=
  ((List.range A.rows).drop (k + 1)).foldl
    (fun B r => B.scaledRowAdd k r (-(overPivot (B.entry r k) (A.entry k k)))) A

/-- The pivots met when column `k` and the `n` columns after it are cleared, and whether the
number of row exchanges so far is odd. -/
def eliminate (A : DenseMatrix α) (odd : Bool) (k : Nat) : Nat → List α × Bool
  | 0 => ([], odd)
  | n + 1 =>
    let p := A.pivotRow k
    let B := A.rowSwap k p
    let odd := odd != (p != k)
    let pivot := B.entry k k
    let C := if Scalar.eq pivot 0 then B else B.clearBelow k
    let (pivots, odd) := C.eliminate odd (k + 1) n
    (pivot :: pivots, odd)

/-- The determinant of a square matrix; that of the empty matrix is one. -/
def det (A : DenseMatrix α) : α :=
  if A.rows = 0 then 1
  else
    let (pivots, odd) := A.eliminate false 0 A.rows
    Scalar.ofPivots odd pivots

/-- The determinant, refused for a matrix that is not square. -/
def determinant (A : DenseMatrix α) : Except MatrixError α :=
  if A.isSquare then .ok A.det else .error .determinantShape

end DenseMatrix

end FluxBalance
