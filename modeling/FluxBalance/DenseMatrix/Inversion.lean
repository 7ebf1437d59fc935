import FluxBalance.DenseMatrix.Determinant

/-!
# Inversion

A square matrix is inverted by Gauss–Jordan elimination of the matrix with the identity beside
it. Every way to fail has its own `InversionOutcome`; on failure the matrix stays as it is.
-/

namespace FluxBalance

namespace DenseMatrix

variable {α : Type} [Scalar α]

/-! ### Elimination -/

/-- Clears column `k` in every row but row `k`, whose entry there is one. Rows that hold a zero
in the column are left alone. -/
def clearColumn (A : DenseMatrix α) (k : Nat) : DenseMatrix α :=
  (List.range A.rows).foldl
    (fun B r =>
      let factor := B.entry r k
      if r = k ∨ Scalar.eq factor 0 then B else B.scaledRowAdd k r (-factor)) A

/-- One step of the elimination: bring the largest entry of column `k` into row `k`, make it
one, and clear the rest of the column. Fails on a column of zeros. -/
def reduceColumn (A : DenseMatrix α) (k : Nat) : Option (DenseMatrix α) :=
  let p := A.pivotRow k
  if Scalar.eq (A.entry p k) 0 then none
  else
    let B := A.rowSwap k p
    some ((B.rowScale k (1 / B.entry k k)).clearColumn k)

/-- The elimination of the first columns of a matrix, as many as its rows. -/
def reduce (A : DenseMatrix α) : Option (DenseMatrix α) :=
  (List.range A.rows).foldlM reduceColumn A

/-! ### The attempt -/

/-- Tries to invert a square matrix. The outcome comes with the inverse if it is a success and
with the matrix itself otherwise. -/
def invertSquare (A : DenseMatrix α) : InversionOutcome × DenseMatrix α :=
  let n := A.rows
  if n = 0 then (.success, A)
  else if !A.allFinite then (.unknownInternalError, A)
  else if n = 1 then
    if Scalar.eq (A.entry 0 0) 0 then (.singularZeroValue, A)
    else (.success, A.replace 0 0 (1 / A.entry 0 0))
  else if Scalar.eq A.det 0 then (.determinantZero, A)
  else
    match (A.beside (identity n)).reduce with
    | none => (.zeroDuringElimination, A)
    | some R =>
      let B := R.block 0 n n n
      if B.allFinite then (.success, B) else (.unknownInternalError, A)

/-- Tries to invert a matrix in place, refusing one that is not square. -/
def tryInvert (A : DenseMatrix α) : Except MatrixError (InversionOutcome × DenseMatrix α) :=
  if A.isSquare then .ok A.invertSquare else .error (.inversionShape A.rows A.cols)

/-- The inverse, or the reason why there is none. -/
def inverse (A : DenseMatrix α) : Except MatrixError (DenseMatrix α) := do
  match ← A.tryInvert with
  | (.success, B) => return B
  | (outcome, _) => throw (.inversion outcome)

end DenseMatrix

end FluxBalance
