import FluxBalance.DenseMatrix.Basic

/-!
# Row operations

The elementary row operations: scaling a row, exchanging two rows, and adding a row or a
multiple of it to a row. On naturals they are total, and an index outside the shape leaves the
matrix as it is; the checked forms refuse such an index.
-/

namespace FluxBalance

namespace DenseMatrix

variable {α : Type} [Scalar α]

/-! ### Total operations -/

/-- Row `r` multiplied by a scalar. -/
def rowScale (A : DenseMatrix α) (r : Nat) (s : α) : DenseMatrix α :=
  A.setRow r ((A.row r).map (· * s))

/-- Row `r1` added to row `r2`. -/
def rowAdd (A : DenseMatrix α) (r1 r2 : Nat) : DenseMatrix α :=
  A.setRow r2 (Vector.zipWith (fun x y => x + y) (A.row r2) (A.row r1))

/-- The multiple `s` of row `r1` added to row `r2`. -/
def scaledRowAdd (A : DenseMatrix α) (r1 r2 : Nat) (s : α) : DenseMatrix α :=
  A.setRow r2 (Vector.zipWith (fun x y => x + s * y) (A.row r2) (A.row r1))

/-- Rows `r1` and `r2` exchanged. -/
def rowSwap (A : DenseMatrix α) (r1 r2 : Nat) : DenseMatrix α :=
  if r1 = r2 then A
  else
    let (v1, v2) := (A.row r1, A.row r2)
    let B := A.setRow r1 v2
    B.setRow r2 v1

/-! ### Entries of the results -/

/-- Scaling a row multiplies its entries and no others. -/
theorem entry_rowScale (A : DenseMatrix α) {r i j : Nat} (s : α) (hi : i < A.rows)
    (hj : j < A.cols) :
    (A.rowScale r s).entry i j = if r = i then A.entry i j * s else A.entry i j := by
  rw [rowScale, entry_setRow A _ hi hj]
  by_cases h : r = i
  · subst h; simp [getElem_row]
  · simp [h]

/-- Adding row `r1` to row `r2` changes row `r2` alone. -/
theorem entry_rowAdd (A : DenseMatrix α) {r1 r2 i j : Nat} (hi : i < A.rows)
    (hj : j < A.cols) :
    (A.rowAdd r1 r2).entry i j =
      if r2 = i then A.entry i j + A.entry r1 j else A.entry i j := by
  rw [rowAdd, entry_setRow A _ hi hj]
  by_cases h : r2 = i
  · subst h; simp [getElem_row]
  · simp [h]

/-- Adding a multiple of row `r1` to row `r2` changes row `r2` alone. -/
theorem entry_scaledRowAdd (A : DenseMatrix α) {r1 r2 i j : Nat} (s : α) (hi : i < A.rows)
    (hj : j < A.cols) :
    (A.scaledRowAdd r1 r2 s).entry i j =
      if r2 = i then A.entry i j + s * A.entry r1 j else A.entry i j := by
  rw [scaledRowAdd, entry_setRow A _ hi hj]
  by_cases h : r2 = i
  · subst h; simp [getElem_row]
  · simp [h]

/-- Exchanging two rows of the matrix moves their entries and no others. -/
theorem entry_rowSwap (A : DenseMatrix α) {r1 r2 i j : Nat} (hi : i < A.rows)
    (hj : j < A.cols) :
    (A.rowSwap r1 r2).entry i j =
      A.entry (if i = r1 then r2 else if i = r2 then r1 else i) j := by
  unfold rowSwap
  by_cases h : r1 = r2
  · subst h; by_cases hr : i = r1 <;> simp [hr]
  · rw [if_neg h, entry_setRow (A.setRow r1 (A.row r2)) (A.row r1) hi hj]
    by_cases h2 : r2 = i
    · subst h2; simp [getElem_row, Ne.symm h]
    · rw [if_neg h2, entry_setRow A _ hi hj]
      by_cases h1 : r1 = i
      · subst h1; simp [getElem_row]
      · simp [h1, Ne.symm h1, Ne.symm h2]

/-! ### Operations with checked indices -/

/-- Row `r` multiplied by a scalar. -/
def scaleRow (A : DenseMatrix α) (r : Int) (s : α) : Except MatrixError (DenseMatrix α) := do
  return A.rowScale (← A.checkRow r) s

/-- Row `r1` added to row `r2`. -/
def addRow (A : DenseMatrix α) (r1 r2 : Int) : Except MatrixError (DenseMatrix α) := do
  let i ← A.checkRow r1
  let j ← A.checkRow r2
  return A.rowAdd i j

/-- The multiple `s` of row `r1` added to row `r2`. -/
def addScaledRow (A : DenseMatrix α) (r1 r2 : Int) (s : α) :
    Except MatrixError (DenseMatrix α) := do
  let i ← A.checkRow r1
  let j ← A.checkRow r2
  return A.scaledRowAdd i j s

/-- Rows `r1` and `r2` exchanged. -/
def swapRows (A : DenseMatrix α) (r1 r2 : Int) : Except MatrixError (DenseMatrix α) := do
  let i ← A.checkRow r1
  let j ← A.checkRow r2
  return A.rowSwap i j

/-! ### Sequences of operations -/

/-- One elementary row operation. -/
inductive RowOp (α : Type) where
  | scale (row : Nat) (factor : α)
  | add (source target : Nat)
  | addScaled (source target : Nat) (factor : α)
  | swap (row row' : Nat)
  deriving Repr, DecidableEq

/-- The matrix after one row operation. -/
def applyRowOp (A : DenseMatrix α) : RowOp α → DenseMatrix α
  | .scale r s => A.rowScale r s
  | .add r1 r2 => A.rowAdd r1 r2
  | .addScaled r1 r2 s => A.scaledRowAdd r1 r2 s
  | .swap r1 r2 => A.rowSwap r1 r2

/-- The matrix after a sequence of row operations, the first one applied first. -/
def applyRowOps (A : DenseMatrix α) (ops : List (RowOp α)) : DenseMatrix α :=
  ops.foldl applyRowOp A

end DenseMatrix

end FluxBalance
