import Mathlib.LinearAlgebra.Matrix.NonsingularInverse
import FluxBalance.Proofs.DenseMatrix.Inverse

/-!
# Two-sided inverses

Elimination gives a right inverse: every column of numbers is a combination of the columns of the
matrix, and what elimination makes of the identity holds the factors. A square matrix with a right
inverse has it on the left as well. So in exact arithmetic the product of a matrix and of what a
successful attempt at inversion leaves in its place is the identity, in either order. In particular
the columns of a matrix that is inverted are independent.

## Main definitions and results

* `success_iff_isUnit`: a square matrix is inverted exactly if its `toMatrix` is a unit;
* `product_inverse_of_tryInvert`: both products with what `tryInvert` leaves are the identity.
-/

namespace FluxBalance.DenseMatrix

variable {α : Type} [Scalar α] [Scalar.Exact α] {A B R : DenseMatrix α} {n : Nat}

/-! ### Square blocks -/

omit [Scalar.Exact α] in
@[simp] theorem toMatrix_identity (n : Nat) : (identity n : DenseMatrix α).toMatrix n = 1 := by
  ext i j
  rw [toMatrix_apply, entry_identity i.isLt j.isLt, Matrix.one_apply]
  simp only [Fin.ext_iff]

private theorem toMatrix_times (hA : A.rows = n) (hcols : A.cols = n) (hB : B.cols = n) :
    (A.times B).toMatrix n = A.toMatrix n * B.toMatrix n := by
  ext i j
  rw [toMatrix_apply, entry_times_eq_dot A B (hA ▸ i.isLt) (hB ▸ j.isLt), Matrix.mul_apply, dot,
    hcols]
  exact Finset.sum_range fun k => A.entry i k * B.entry k j

omit [Scalar.Exact α] in
/-- Square matrices of one size with the same entries are equal. -/
private theorem eq_of_toMatrix_eq (hA : A.rows = n) (hAcols : A.cols = n) (hB : B.rows = n)
    (hBcols : B.cols = n) (h : A.toMatrix n = B.toMatrix n) : A = B := by
  refine ext_entry (hA.trans hB.symm) (hAcols.trans hBcols.symm) fun i j hi hj => ?_
  exact congrFun (congrFun h ⟨i, hA ▸ hi⟩) ⟨j, hAcols ▸ hj⟩

/-- A product is the `identity` exactly if the product of the matrices of entries is. -/
theorem times_eq_identity_iff (hA : A.rows = n) (hAcols : A.cols = n) (hB : B.cols = n) :
    A.times B = identity n ↔ A.toMatrix n * B.toMatrix n = 1 := by
  rw [← toMatrix_times hA hAcols hB, ← toMatrix_identity]
  exact ⟨fun h => by rw [h], eq_of_toMatrix_eq hA hB rfl rfl⟩

/-! ### Inverses on both sides -/

/-- A matrix that undoes another one is its right inverse. -/
theorem Undoes.times_eq_identity (h : A.Undoes R) (hcols : R.cols = A.rows) :
    A.times R = identity A.rows := by
  refine ext_entry rfl hcols fun i j hi hj => ?_
  have hi : i < A.rows := hi
  have hj : j < R.cols := hj
  rw [entry_times_eq_dot A R hi hj, entry_identity hi (hcols ▸ hj)]
  -- The entries of a column of `R` are its rows times a unit column.
  have hunit : ∀ k, R.dot k (fun l => if l = j then 1 else 0) = R.entry k j := by
    intro k
    simp only [dot, mul_ite, mul_one, mul_zero]
    rw [Finset.sum_ite_eq', if_pos (Finset.mem_range.mpr hj)]
  have hcolumn := h (fun l => if l = j then 1 else 0) i hi
  simpa only [hunit] using hcolumn

/-- A right inverse of a square matrix is a left inverse. -/
theorem times_eq_identity_comm (hA : A.rows = n) (hAcols : A.cols = n) (hB : B.rows = n)
    (hBcols : B.cols = n) : A.times B = identity n ↔ B.times A = identity n := by
  rw [times_eq_identity_iff hA hAcols hBcols, times_eq_identity_iff hB hBcols hAcols]
  exact mul_eq_one_comm

/-- **A square matrix is inverted exactly if it has an inverse.** -/
theorem success_iff_isUnit (hrows : A.rows = n) (hcols : A.cols = n) :
    A.invertSquare.1 = .success ↔ IsUnit (A.toMatrix n) := by
  constructor
  · intro h
    obtain ⟨hR, hRcols, hundoes⟩ := undoes_of_invertSquare (R := A.invertSquare.2)
      (hrows.trans hcols.symm) (Prod.ext h rfl)
    have hright : A.times A.invertSquare.2 = identity n :=
      hrows ▸ hundoes.times_eq_identity hRcols
    exact IsUnit.of_mul_eq_one _
      ((times_eq_identity_iff hrows hcols (hRcols.trans hrows)).mp hright)
  · intro h
    refine success_of_independent (hrows.trans hcols.symm) fun z _ hz j hj => ?_
    have hproduct : (A.toMatrix n).mulVec (fun j => z j) = 0 := by
      ext i
      rw [← dot_eq_mulVec hcols, hz i (hrows ▸ i.isLt), Pi.zero_apply]
    have hzero := Matrix.mulVec_injective_of_isUnit h (hproduct.trans (Matrix.mulVec_zero _).symm)
    exact congrFun hzero ⟨j, hrows ▸ hj⟩

/-- The columns of a matrix that is inverted are independent. -/
theorem eq_zero_of_solves (hsquare : A.rows = A.cols) (hsuccess : A.invertSquare.1 = .success)
    {z : Nat → α} (hz : A.Solves z) {j : Nat} (hj : j < A.cols) : z j = 0 := by
  have hunit := (success_iff_isUnit hsquare rfl).mp hsuccess
  have hproduct : (A.toMatrix A.cols).mulVec (fun j => z j) = 0 := by
    ext i
    rw [← dot_eq_mulVec rfl, hz i (i.isLt.trans_eq hsquare.symm), Pi.zero_apply]
  have hzero := Matrix.mulVec_injective_of_isUnit hunit
    (hproduct.trans (Matrix.mulVec_zero _).symm)
  exact congrFun hzero ⟨j, hj⟩

/-- **Inversion in place leaves the inverse.** If the attempt at inverting a matrix succeeds, then
the matrix is square and its product with what is left in its place is the `identity` of its size,
in either order. -/
theorem product_inverse_of_tryInvert (h : A.tryInvert = .ok (.success, B)) :
    A.rows = A.cols ∧ A.product B = .ok (identity A.rows) ∧
      B.product A = .ok (identity A.rows) := by
  unfold tryInvert at h
  split at h
  · rename_i hsquare
    have hsquare : A.rows = A.cols := by simpa [isSquare] using hsquare
    obtain ⟨hrows, hcols, hundoes⟩ := undoes_of_invertSquare hsquare (Except.ok.inj h)
    have hright : A.times B = identity A.rows := hundoes.times_eq_identity hcols
    have hleft : B.times A = identity A.rows :=
      (times_eq_identity_comm rfl hsquare.symm hrows hcols).mp hright
    exact ⟨hsquare, product_eq_ok_iff.mpr ⟨by omega, hright.symm⟩,
      product_eq_ok_iff.mpr ⟨hcols, hleft.symm⟩⟩
  · cases h

/-- A matrix whose rows have to be exchanged before the first column can be cleared. -/
def rowsExchanged : DenseMatrix Rat :=
  ofFn 3 3 fun i j => (#[#[0, 2, 1], #[1, 0, 0], #[3, 0, 1]].getD i #[]).getD j 0

/-- What is left in its place. -/
def rowsExchangedInverse : DenseMatrix Rat :=
  ofFn 3 3 fun i j =>
    (#[#[0, 1, 0], #[mkRat 1 2, mkRat 3 2, mkRat (-1) 2], #[0, -3, 1]].getD i #[]).getD j 0

/-- There is a zero on the diagonal of `rowsExchanged`, so rows are exchanged, and
`rowsExchangedInverse` is the inverse from either side. -/
theorem product_inverse_rowsExchanged :
    rowsExchanged.tryInvert = .ok (.success, rowsExchangedInverse) ∧
    rowsExchanged.product rowsExchangedInverse = .ok (identity 3) ∧
    rowsExchangedInverse.product rowsExchanged = .ok (identity 3) := by
  have hinvert : rowsExchanged.tryInvert = .ok (.success, rowsExchangedInverse) := by
    refine congrArg Except.ok ?_
    decide +kernel
  exact ⟨hinvert, (product_inverse_of_tryInvert hinvert).2⟩

end FluxBalance.DenseMatrix
