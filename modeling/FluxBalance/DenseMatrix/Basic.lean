import FluxBalance.Scalar
import FluxBalance.DenseMatrix.Error

/-!
# Dense matrices

A dense matrix is a rectangular block of scalars whose shape is part of its value. Every
operation that builds a new matrix is an instance of `DenseMatrix.ofFn`, which tabulates a
function of the row and the column, and is determined by its shape and by `entry`.

Operations whose shapes or indices must fit come in two layers: a total function on
naturals, about which laws are stated, and a checked one on integers that refuses what does
not fit with a `MatrixError`.
-/

namespace FluxBalance

/-- A rectangular block of scalars, stored row by row. -/
structure DenseMatrix (α : Type) where
  /-- The number of rows. -/
  rows : Nat
  /-- The number of columns. -/
  cols : Nat
  /-- The rows from top to bottom. -/
  data : Vector (Vector α cols) rows
  deriving Repr, DecidableEq

namespace DenseMatrix

variable {α : Type}

/-! ### Tabulation and access -/

/-- The matrix of the given shape whose entry in row `i` and column `j` is `f i j`. -/
def ofFn (rows cols : Nat) (f : Nat → Nat → α) : DenseMatrix α :=
  ⟨rows, cols, Vector.ofFn fun i => Vector.ofFn fun j => f i j⟩

/-- The entry in row `i` and column `j`; zero outside the shape. -/
def entry [Zero α] (A : DenseMatrix α) (i j : Nat) : α :=
  if h : i < A.rows ∧ j < A.cols then A.data[i][j] else 0

@[simp] theorem rows_ofFn (r c : Nat) (f : Nat → Nat → α) : (ofFn r c f).rows = r := rfl

@[simp] theorem cols_ofFn (r c : Nat) (f : Nat → Nat → α) : (ofFn r c f).cols = c := rfl

theorem entry_ofFn [Zero α] {r c i j : Nat} (f : Nat → Nat → α) (hi : i < r) (hj : j < c) :
    (ofFn r c f).entry i j = f i j := by
  simp [entry, ofFn, hi, hj]

/-- Two matrices of one shape with the same entries are equal. -/
theorem ext_entry [Zero α] {A B : DenseMatrix α} (hr : A.rows = B.rows) (hc : A.cols = B.cols)
    (h : ∀ i j, i < A.rows → j < A.cols → A.entry i j = B.entry i j) : A = B := by
  obtain ⟨r, c, a⟩ := A
  obtain ⟨r', c', b⟩ := B
  obtain rfl : r = r' := hr
  obtain rfl : c = c' := hc
  congr 1
  apply Vector.ext
  intro i hi
  apply Vector.ext
  intro j hj
  simpa [entry, hi, hj] using h i j hi hj

/-- The shape as a pair. -/
def shape (A : DenseMatrix α) : Nat × Nat := (A.rows, A.cols)

/-- Whether the matrix has as many rows as columns. -/
def isSquare (A : DenseMatrix α) : Bool := A.rows == A.cols

/-- The rows as lists. -/
def toRows (A : DenseMatrix α) : List (List α) := A.data.toList.map (·.toList)

/-- The entries as one list, row after row. -/
def toList (A : DenseMatrix α) : List α := A.toRows.flatten

/-! ### Constructors -/

section Constructors

variable [Zero α]

/-- The zero matrix of a shape. -/
def zeros (rows cols : Nat) : DenseMatrix α := ofFn rows cols fun _ _ => 0

/-- The zero matrix of a shape given by integers. -/
def new (rows cols : Int) : Except MatrixError (DenseMatrix α) :=
  if rows < 0 ∨ cols < 0 then .error (.negativeShape rows cols)
  else .ok (zeros rows.toNat cols.toNat)

/-- The identity matrix. -/
def identity [One α] (n : Nat) : DenseMatrix α := ofFn n n fun i j => if i = j then 1 else 0

theorem entry_zeros {r c i j : Nat} : (zeros r c : DenseMatrix α).entry i j = 0 := by
  by_cases h : i < r ∧ j < c <;> simp [zeros, entry, ofFn, h]

theorem entry_identity [One α] {n i j : Nat} (hi : i < n) (hj : j < n) :
    (identity n : DenseMatrix α).entry i j = if i = j then 1 else 0 := entry_ofFn _ hi hj

/-- The identity matrix of a size given by an integer. -/
def newIdentity [One α] (n : Int) : Except MatrixError (DenseMatrix α) :=
  if n < 0 then .error (.negativeIdentity n) else .ok (identity n.toNat)

/-- One column holding the given values. -/
def column (values : List α) : DenseMatrix α :=
  let a := values.toArray
  ofFn a.size 1 fun i _ => a.getD i 0

/-- A matrix from nested rows, all of one length; no rows at all make the empty matrix. -/
def ofRows (rows : List (List α)) : Except MatrixError (DenseMatrix α) :=
  match rows with
  | [] => .ok (zeros 0 0)
  | first :: _ =>
    if rows.any fun r => r.length != first.length then .error .raggedRows
    else
      let a := (rows.map (·.toArray)).toArray
      .ok (ofFn a.size first.length fun i j => (a.getD i #[]).getD j 0)

/-- A matrix of `rows` rows filled row by row from a flat list. -/
def ofFlat (rows : Int) (values : List α) : Except MatrixError (DenseMatrix α) :=
  let n := values.length
  if rows ≤ 0 then .error (.unfillable n rows)
  else if n % rows.toNat ≠ 0 then .error (.unfillable n rows)
  else
    let a := values.toArray
    let c := n / rows.toNat
    .ok (ofFn rows.toNat c fun i j => a.getD (i * c + j) 0)

/-- The square matrix with the given diagonal and zeros elsewhere. -/
def ofDiagonal (values : List α) : DenseMatrix α :=
  let a := values.toArray
  ofFn a.size a.size fun i j => if i = j then a.getD i 0 else 0

end Constructors

/-! ### Index checks -/

/-- A pair of indices inside the shape, as naturals. -/
def checkIndex (A : DenseMatrix α) (row col : Int) : Except MatrixError (Nat × Nat) :=
  if 0 ≤ row ∧ row < A.rows ∧ 0 ≤ col ∧ col < A.cols then .ok (row.toNat, col.toNat)
  else .error (.outOfBounds row col A.rows A.cols)

/-- A row index inside the shape, as a natural. -/
def checkRow (A : DenseMatrix α) (row : Int) : Except MatrixError Nat :=
  if 0 ≤ row ∧ row < A.rows then .ok row.toNat
  else .error (.outOfBounds row 0 A.rows A.cols)

/-- The entry at a checked pair of indices. -/
def get [Zero α] (A : DenseMatrix α) (row col : Int) : Except MatrixError α := do
  let (i, j) ← A.checkIndex row col
  return A.entry i j

/-- Row `i` as a vector; zeros outside the shape. -/
def row [Zero α] (A : DenseMatrix α) (i : Nat) : Vector α A.cols :=
  if h : i < A.rows then A.data[i] else Vector.replicate A.cols 0

/-- The matrix with row `i` replaced; unchanged outside the shape. -/
def setRow (A : DenseMatrix α) (i : Nat) (v : Vector α A.cols) : DenseMatrix α :=
  { A with data := A.data.setIfInBounds i v }

@[simp] theorem rows_setRow (A : DenseMatrix α) (i : Nat) (v : Vector α A.cols) :
    (A.setRow i v).rows = A.rows := rfl

@[simp] theorem cols_setRow (A : DenseMatrix α) (i : Nat) (v : Vector α A.cols) :
    (A.setRow i v).cols = A.cols := rfl

/-- The entries of a row are those of the matrix. -/
theorem getElem_row [Zero α] (A : DenseMatrix α) (i : Nat) {j : Nat} (hj : j < A.cols) :
    (A.row i)[j] = A.entry i j := by
  by_cases hi : i < A.rows <;> simp [row, entry, hi, hj]

/-- Replacing a row changes the entries of that row and no others. -/
theorem entry_setRow [Zero α] (A : DenseMatrix α) {i k j : Nat} (v : Vector α A.cols)
    (hk : k < A.rows) (hj : j < A.cols) :
    (A.setRow i v).entry k j = if i = k then v[j] else A.entry k j := by
  by_cases h : i = k
  · subst h; simp [setRow, entry, hk, hj]
  · simp [setRow, entry, hk, hj, h]

/-- The matrix with one entry replaced; unchanged outside the shape. -/
def replace [Zero α] (A : DenseMatrix α) (i j : Nat) (value : α) : DenseMatrix α :=
  A.setRow i ((A.row i).setIfInBounds j value)

/-- The matrix with the entry at a checked pair of indices replaced. -/
def set [Zero α] (A : DenseMatrix α) (row col : Int) (value : α) :
    Except MatrixError (DenseMatrix α) := do
  let (i, j) ← A.checkIndex row col
  return A.replace i j value

/-! ### Algebra -/

section Algebra

variable [Scalar α]

/-- Every entry multiplied by a scalar. -/
def scale (A : DenseMatrix α) (s : α) : DenseMatrix α :=
  ofFn A.rows A.cols fun i j => A.entry i j * s

/-- The entries with their signs changed. -/
def neg (A : DenseMatrix α) : DenseMatrix α := ofFn A.rows A.cols fun i j => -A.entry i j

/-- The entrywise sum, in the shape of the first matrix. -/
def plus (A B : DenseMatrix α) : DenseMatrix α :=
  ofFn A.rows A.cols fun i j => A.entry i j + B.entry i j

/-- The entrywise difference, in the shape of the first matrix. -/
def minus (A B : DenseMatrix α) : DenseMatrix α :=
  ofFn A.rows A.cols fun i j => A.entry i j - B.entry i j

/-- The matrix product. -/
def times (A B : DenseMatrix α) : DenseMatrix α :=
  ofFn A.rows B.cols fun i j =>
    Scalar.sum ((List.range A.cols).map fun k => A.entry i k * B.entry k j)

/-- The matrix mirrored at its diagonal. -/
def transpose (A : DenseMatrix α) : DenseMatrix α :=
  ofFn A.cols A.rows fun i j => A.entry j i

/-- The second matrix put to the right of the first, with the rows of the first. -/
def beside (A B : DenseMatrix α) : DenseMatrix α :=
  ofFn A.rows (A.cols + B.cols) fun i j =>
    if j < A.cols then A.entry i j else B.entry i (j - A.cols)

/-- The block of the given size whose upper left corner is at row `r` and column `c`. -/
def block (A : DenseMatrix α) (r c rows cols : Nat) : DenseMatrix α :=
  ofFn rows cols fun i j => A.entry (r + i) (c + j)

theorem entry_times (A B : DenseMatrix α) {i j : Nat} (hi : i < A.rows) (hj : j < B.cols) :
    (A.times B).entry i j =
      Scalar.sum ((List.range A.cols).map fun k => A.entry i k * B.entry k j) :=
  entry_ofFn _ hi hj

theorem entry_transpose (A : DenseMatrix α) (i j : Nat) :
    A.transpose.entry i j = A.entry j i := by
  by_cases h : i < A.cols ∧ j < A.rows
  · exact entry_ofFn _ h.1 h.2
  · have h' : ¬(j < A.rows ∧ i < A.cols) := fun g => h ⟨g.2, g.1⟩
    simp [entry, transpose, ofFn, h, h']

/-- Mirroring twice gives the matrix back. -/
theorem transpose_transpose (A : DenseMatrix α) : A.transpose.transpose = A :=
  ext_entry rfl rfl fun i j _ _ => by rw [entry_transpose, entry_transpose]

/-- Left of the seam the entries are those of the first matrix. -/
theorem entry_beside_left (A B : DenseMatrix α) {i j : Nat} (hi : i < A.rows)
    (hj : j < A.cols) : (A.beside B).entry i j = A.entry i j := by
  unfold beside
  rw [entry_ofFn _ hi (by omega), if_pos hj]

/-- Right of the seam the entries are those of the second matrix. -/
theorem entry_beside_right (A B : DenseMatrix α) {i j : Nat} (hi : i < A.rows)
    (hj : j < B.cols) : (A.beside B).entry i (A.cols + j) = B.entry i j := by
  unfold beside
  rw [entry_ofFn _ hi (by omega), if_neg (by omega), Nat.add_sub_cancel_left]

theorem entry_block (A : DenseMatrix α) (r c : Nat) {rows cols i j : Nat} (hi : i < rows)
    (hj : j < cols) : (A.block r c rows cols).entry i j = A.entry (r + i) (c + j) :=
  entry_ofFn _ hi hj

/-- The sum of the diagonal of a square matrix. -/
def diagonalSum (A : DenseMatrix α) : α :=
  Scalar.sum ((List.range A.rows).map fun i => A.entry i i)

end Algebra

/-! ### Algebra with checked shapes -/

section Checked

variable [Scalar α]

/-- The product of matrices whose inner sides agree. -/
def product (A B : DenseMatrix α) : Except MatrixError (DenseMatrix α) :=
  if A.cols = B.rows then .ok (A.times B)
  else .error (.product A.rows A.cols B.rows B.cols)

/-- The sum of matrices of one shape. -/
def add (A B : DenseMatrix α) : Except MatrixError (DenseMatrix α) :=
  if A.shape = B.shape then .ok (A.plus B)
  else .error (.elementwise "add" A.rows A.cols B.rows B.cols)

/-- The difference of matrices of one shape. -/
def sub (A B : DenseMatrix α) : Except MatrixError (DenseMatrix α) :=
  if A.shape = B.shape then .ok (A.minus B)
  else .error (.elementwise "subtract" A.rows A.cols B.rows B.cols)

/-- Two matrices of equal height side by side. -/
def augment (A B : DenseMatrix α) : Except MatrixError (DenseMatrix α) :=
  if A.rows = B.rows then .ok (A.beside B) else .error (.augment A.rows B.rows)

/-- The block between two corners, both of them part of it. -/
def subset (A : DenseMatrix α) (r1 c1 r2 c2 : Int) : Except MatrixError (DenseMatrix α) := do
  let (i, j) ← A.checkIndex r1 c1
  let (k, l) ← A.checkIndex r2 c2
  if k < i ∨ l < j then throw (.corners r1 c1 r2 c2)
  return A.block i j (k + 1 - i) (l + 1 - j)

/-- The trace, if the matrix is square. -/
def trace? (A : DenseMatrix α) : Option α := if A.isSquare then some A.diagonalSum else none

/-! ### Comparison -/

/-- Whether two matrices have one shape and numerically equal entries. -/
def sameEntries (A B : DenseMatrix α) : Bool :=
  A.shape == B.shape && (A.toList.zip B.toList).all fun (x, y) => Scalar.eq x y

/-- Whether two matrices have one shape and entries that are equal or at most `tol` apart. -/
def isClose (A B : DenseMatrix α) (tol : α) : Bool :=
  A.shape == B.shape && (A.toList.zip B.toList).all fun (x, y) =>
    (Scalar.le (Scalar.abs (x - y)) tol && Scalar.isFinite y) || Scalar.eq x y

/-- Whether every entry is finite. -/
def allFinite (A : DenseMatrix α) : Bool := A.toList.all Scalar.isFinite

end Checked

/-- A matrix of doubles in its written form: the shape, then the rows. -/
def text (A : DenseMatrix Float) : String :=
  "Matrix(" ++ toString A.rows ++ "x" ++ toString A.cols ++ ", ["
    ++ ", ".intercalate (A.toRows.map Number.shortestList) ++ "])"

end DenseMatrix

end FluxBalance
