import Mathlib.LinearAlgebra.Matrix.Block
import Mathlib.LinearAlgebra.Matrix.ToLinearEquiv
import FluxBalance.Proofs.DenseMatrix.Elimination

/-!
# Determinants in exact arithmetic

Elimination brings a matrix into triangular form by exchanges of rows, each of which changes the
sign of the determinant, and by adding multiples of a row to the rows below it, which leaves the
determinant alone. So in exact arithmetic the product of the pivots, with the sign of the exchanges,
is the determinant of the entries. A column without a pivot needs no case of its own: from the
diagonal on it holds zeros already, and the pivot that is noted for it is zero as well.

## Main definitions and results

* `toMatrix`: the first rows and columns as a matrix of Mathlib, whose determinant is the one meant;
* `ZerosBelow`, `ZerosBelow.step`: the invariant of the elimination, and that a step keeps it;
* `det_eq_det_toMatrix`: in exact arithmetic `det` is the determinant.
-/

namespace FluxBalance.DenseMatrix

variable {α : Type} [Scalar α] [Scalar.Exact α] {A C : DenseMatrix α} {n k : Nat}

/-! ### Square blocks -/

/-- The entries in the first `n` rows and columns. -/
def toMatrix (A : DenseMatrix α) (n : Nat) : Matrix (Fin n) (Fin n) α :=
  .of fun i j => A.entry i j

omit [Scalar.Exact α] in
@[simp] theorem toMatrix_apply (A : DenseMatrix α) (i j : Fin n) :
    A.toMatrix n i j = A.entry i j := rfl

/-- A row meets the numbers as in the product of the square block with them. -/
theorem dot_eq_mulVec (hcols : A.cols = n) (i : Fin n) (z : Nat → α) :
    A.dot i z = (A.toMatrix n).mulVec (fun j => z j) i := by
  rw [dot, hcols]
  exact Finset.sum_range fun j => A.entry i j * z j

/-! ### Zeros below the diagonal -/

/-- Below the diagonal the first `k` columns hold zeros. -/
def ZerosBelow (A : DenseMatrix α) (k : Nat) : Prop :=
  ∀ j < k, ∀ i < A.rows, j < i → A.entry i j = 0

omit [Scalar.Exact α] in
/-- Bringing the next pivot into its row leaves the zeros of the columns before alone. -/
theorem ZerosBelow.pivotSwap (h : A.ZerosBelow k) (hk : k < A.rows) (hcol : k < A.cols) :
    (A.rowSwap k (A.pivotRow k)).ZerosBelow k := by
  intro j hj i hi hji
  rw [rows_rowSwap] at hi
  by_cases hik : i < k
  · rw [entry_pivotSwap_of_lt hk hik (by omega)]
    exact h j hj i hi hji
  · exact entry_pivotSwap_of_le hk (by omega) hi (by omega) fun r hkr hr =>
      h j hj r hr (by omega)

/-- The row of the pivot and those above it are left alone when the column below is cleared. -/
private theorem entry_clearBelow_of_le {i j : Nat} (hk : k < A.rows) (hcol : k < A.cols)
    (hik : i ≤ k) (hj : j < A.cols) : (A.clearBelow k).entry i j = A.entry i j := by
  rw [(clearedBy_clearBelow hk hcol).entry i (by omega) j hj, if_neg (by omega), zero_mul, add_zero]

/-- Clearing a column below its pivot gets one column further. -/
theorem ZerosBelow.clearBelow (h : A.ZerosBelow k) (hk : k < A.rows) (hcol : k < A.cols)
    (hpivot : A.entry k k ≠ 0) : (A.clearBelow k).ZerosBelow (k + 1) := by
  have hclear := clearedBy_clearBelow hk hcol
  intro j hj i hi hji
  rw [hclear.rows] at hi
  rcases Nat.lt_or_eq_of_le (Nat.le_of_lt_succ hj) with hjk | rfl
  · rw [hclear.entry i hi j (by omega), h j hjk i hi hji, h j hjk k hk hjk, mul_zero, add_zero]
  · rw [hclear.entry i hi j hcol, if_pos hji, neg_mul, div_mul_cancel₀ _ hpivot, add_neg_cancel]

/-- A column without a pivot holds zeros from the diagonal on. -/
private theorem ZerosBelow.of_pivot_eq_zero (h : A.ZerosBelow k) (hk : k < A.rows)
    (hcol : k < A.cols)
    (hpivot : A.entry (A.pivotRow k) k = 0) : (A.rowSwap k (A.pivotRow k)).ZerosBelow (k + 1) := by
  intro j hj i hi hji
  rcases Nat.lt_or_eq_of_le (Nat.le_of_lt_succ hj) with hjk | rfl
  · exact h.pivotSwap hk hcol j hjk i hi hji
  · rw [rows_rowSwap] at hi
    exact entry_pivotSwap_of_le hk hji.le hi hcol fun r hkr hr =>
      entry_eq_zero_of_pivot hpivot hkr hr

/-! ### Determinants of square blocks -/

/-- Exchanging two rows changes the sign of the determinant. -/
theorem det_toMatrix_rowSwap (hrows : A.rows = n) (hcols : A.cols = n) {p q : Nat} (hp : p < n)
    (hq : q < n) : ((A.rowSwap p q).toMatrix n).det =
      if q ≠ p then -(A.toMatrix n).det else (A.toMatrix n).det := by
  by_cases hqp : q = p
  · rw [if_neg (not_not_intro hqp), hqp, rowSwap, if_pos rfl]
  · have hswap : (A.rowSwap p q).toMatrix n =
        (A.toMatrix n).submatrix (Equiv.swap ⟨p, hp⟩ ⟨q, hq⟩) id := by
      ext i j
      rw [toMatrix_apply, entry_rowSwap A (hrows ▸ i.isLt) (hcols ▸ j.isLt),
        Matrix.submatrix_apply, toMatrix_apply, Equiv.swap_apply_def]
      simp only [Fin.ext_iff]
      split
      · rfl
      · split <;> rfl
    have hsign : Equiv.Perm.sign (Equiv.swap (⟨p, hp⟩ : Fin n) ⟨q, hq⟩) = -1 :=
      Equiv.Perm.sign_swap fun h => hqp (Fin.mk.inj h).symm
    rw [if_pos hqp, hswap, Matrix.det_permute, hsign]
    simp

/-- Adding multiples of a row to the others leaves the determinant alone. -/
theorem ClearedBy.det_toMatrix {g : Nat → α} (h : ClearedBy k g A C) (hrows : A.rows = n)
    (hcols : A.cols = n) (hk : k < n) (hg : g k = 0) :
    (C.toMatrix n).det = (A.toMatrix n).det := by
  refine Matrix.det_eq_of_forall_row_eq_smul_add_const (fun i => g i) ⟨k, hk⟩ hg fun i j => ?_
  rw [toMatrix_apply, h.entry i (hrows ▸ i.isLt) j (hcols ▸ j.isLt)]
  rfl

/-- The determinant of a triangular matrix is the product of its diagonal. -/
theorem ZerosBelow.det_toMatrix (h : A.ZerosBelow n) (hrows : A.rows = n) :
    (A.toMatrix n).det = ∏ j ∈ Finset.range n, A.entry j j := by
  have htriangular : (A.toMatrix n).IsUpperTriangular := fun i j hji =>
    h j j.isLt i (hrows ▸ i.isLt) hji
  rw [Matrix.det_of_isUpperTriangular htriangular, Finset.prod_range]
  rfl

/-! ### Pivots -/

/-- A number with its sign changed after an odd number of exchanges. -/
def signed (odd : Bool) (x : α) : α := if odd then -x else x

/-- Two changes of the sign are one, by the parity of both. -/
private theorem signed_bne (odd odd' : Bool) (x : α) :
    signed (odd != odd') (signed odd' x) = signed odd x := by
  cases odd <;> cases odd' <;> simp [signed]

/-- What one step of the elimination makes of a matrix: the pivot is brought into its row and,
unless it is zero, the column below it is cleared. -/
def clearedAt (A : DenseMatrix α) (k : Nat) : DenseMatrix α :=
  let B := A.rowSwap k (A.pivotRow k)
  if Scalar.eq (B.entry k k) 0 then B else B.clearBelow k

/-- What is known of a matrix after one step of the elimination of column `k`. -/
structure ClearedAt (A : DenseMatrix α) (k n : Nat) (C : DenseMatrix α) : Prop where
  rows : C.rows = n
  cols : C.cols = n
  zeros : C.ZerosBelow (k + 1)
  diagonal : ∀ j < k, C.entry j j = A.entry j j
  pivot : C.entry k k = (A.rowSwap k (A.pivotRow k)).entry k k
  det : (C.toMatrix n).det = signed (A.pivotRow k != k) (A.toMatrix n).det

/-- **One step of the elimination** gets one column further, and the determinant changes its sign
with the exchange of rows. -/
theorem ZerosBelow.step (h : A.ZerosBelow k) (hrows : A.rows = n) (hcols : A.cols = n)
    (hk : k < n) : A.ClearedAt k n (A.clearedAt k) := by
  have hkA : k < A.rows := hrows ▸ hk
  have hcolA : k < A.cols := hcols ▸ hk
  obtain ⟨-, hp⟩ := le_pivotRow_and_lt hkA
  have hB : (A.rowSwap k (A.pivotRow k)).rows = n := (rows_rowSwap _ _).trans hrows
  have hBcols : (A.rowSwap k (A.pivotRow k)).cols = n := (cols_rowSwap _ _).trans hcols
  have hdiagonal : ∀ j < k, (A.rowSwap k (A.pivotRow k)).entry j j = A.entry j j :=
    fun j hj => entry_pivotSwap_of_lt hkA hj (by omega)
  have hdet : ((A.rowSwap k (A.pivotRow k)).toMatrix n).det =
      signed (A.pivotRow k != k) (A.toMatrix n).det := by
    rw [det_toMatrix_rowSwap hrows hcols hk (hrows ▸ hp), signed]
    simp only [bne_iff_ne]
  unfold clearedAt
  dsimp only
  split
  · rename_i hzero
    rw [Scalar.Exact.eq_iff, entry_pivotSwap_self hkA hcolA] at hzero
    exact ⟨hB, hBcols, h.of_pivot_eq_zero hkA hcolA hzero, hdiagonal, rfl, hdet⟩
  · rename_i hpivot
    rw [Scalar.Exact.eq_iff] at hpivot
    have hkB : k < (A.rowSwap k (A.pivotRow k)).rows := hB ▸ hk
    have hcolB : k < (A.rowSwap k (A.pivotRow k)).cols := hBcols ▸ hk
    have hclear := clearedBy_clearBelow hkB hcolB
    refine ⟨hclear.rows.trans hB, hclear.cols.trans hBcols,
      (h.pivotSwap hkA hcolA).clearBelow hkB hcolB hpivot, fun j hj => ?_,
      entry_clearBelow_of_le hkB hcolB le_rfl hcolB, ?_⟩
    · rw [entry_clearBelow_of_le hkB hcolB hj.le (by omega), hdiagonal j hj]
    · rw [hclear.det_toMatrix hB hBcols hk (if_neg (lt_irrefl k)), hdet]

/-- The determinant is the product of the diagonal so far and of the pivots that are still to come,
with the sign of all exchanges. -/
theorem signed_det_eq : ∀ {m k : Nat} {A : DenseMatrix α} (odd : Bool), A.rows = n → A.cols = n →
    k + m = n → A.ZerosBelow k → signed odd (A.toMatrix n).det = signed (A.eliminate odd k m).2
      ((∏ j ∈ Finset.range k, A.entry j j) * (A.eliminate odd k m).1.prod)
  | 0, k, A, odd, hrows, _, hkn, h => by
    obtain rfl : k = n := hkn
    rw [h.det_toMatrix hrows, eliminate, List.prod_nil, mul_one]
  | m + 1, k, A, odd, hrows, hcols, hkn, h => by
    obtain ⟨hCrows, hCcols, hzeros, hdiagonal, hpivot, hdet⟩ := h.step hrows hcols (by omega)
    have heliminate : A.eliminate odd k (m + 1) =
        ((A.rowSwap k (A.pivotRow k)).entry k k ::
          ((A.clearedAt k).eliminate (odd != (A.pivotRow k != k)) (k + 1) m).1,
          ((A.clearedAt k).eliminate (odd != (A.pivotRow k != k)) (k + 1) m).2) := rfl
    have hproduct : ∏ j ∈ Finset.range k, (A.clearedAt k).entry j j =
        ∏ j ∈ Finset.range k, A.entry j j :=
      Finset.prod_congr rfl fun j hj => hdiagonal j (Finset.mem_range.mp hj)
    calc signed odd (A.toMatrix n).det
      _ = signed (odd != (A.pivotRow k != k)) ((A.clearedAt k).toMatrix n).det := by
        rw [hdet, signed_bne]
      _ = _ := signed_det_eq (m := m) _ hCrows hCcols (by omega) hzeros
      _ = _ := by
        rw [heliminate, Finset.prod_range_succ, hproduct, hpivot, List.prod_cons, mul_assoc]

/-- **The determinant is exact**: the signed product of the pivots is the determinant of the
entries. -/
theorem det_eq_det_toMatrix (hrows : A.rows = n) (hcols : A.cols = n) :
    A.det = (A.toMatrix n).det := by
  unfold det
  split
  · obtain rfl : n = 0 := by omega
    exact Matrix.det_isEmpty.symm
  · have hdet := signed_det_eq (k := 0) (m := n) false hrows hcols (Nat.zero_add n)
      fun j hj => absurd hj (by omega)
    rw [Finset.range_zero, Finset.prod_empty, one_mul] at hdet
    dsimp only
    rw [Scalar.Exact.ofPivots_eq, ← List.prod_eq_foldl, hrows]
    exact hdet.symm

/-- The determinant of a square matrix with `Independent` columns is other than zero. -/
theorem det_ne_zero (hsquare : A.rows = A.cols) (hind : A.Independent A.rows) : A.det ≠ 0 := by
  rw [det_eq_det_toMatrix rfl hsquare.symm]
  intro hdet
  obtain ⟨v, hv, hzero⟩ := Matrix.exists_mulVec_eq_zero_iff.mpr hdet
  -- The solution, continued by zeros.
  let z : Nat → α := fun j => if h : j < A.rows then v ⟨j, h⟩ else 0
  have hblock : (fun j : Fin A.rows => z j) = v := funext fun j => dif_pos j.isLt
  have hsolves : A.Solves z := by
    intro i hi
    rw [dot_eq_mulVec hsquare.symm ⟨i, hi⟩, hblock, hzero, Pi.zero_apply]
  have hz := hind z (fun j hj => dif_neg (by omega)) hsolves
  exact hv (funext fun j => (dif_pos j.isLt).symm.trans (hz j j.isLt))

end FluxBalance.DenseMatrix
