import FluxBalance.Proofs.DenseMatrix.Algebra
import FluxBalance.Proofs.DenseMatrix.TwoSided

/-!
# Sequences of row operations

Every row operation replaces rows by combinations of rows, and the factors of these combinations do
not depend on the matrix. So an operation on a product is an operation on its left factor, and a
whole sequence is a product with the matrix that the sequence makes of the identity.

Which sequences can be undone is read off determinants. Each operation multiplies the determinant
by a factor of its own: scaling a row by the number it is scaled by, an exchange of two rows by
minus one, adding a multiple of a row to another one by one. Where a row is added to itself,
multiplied by `s`, it is scaled by `1 + s`. The factor vanishes for two operations only: scaling by
zero, and adding minus one times a row to itself.

## Main definitions and results

* `tryRowOps`: a sequence of row operations with checked indices;
* `rowMatrix`, `applyRowOps_eq_times`: a sequence is a product with what it makes of the identity;
* `RowOp.factor`, `Collapses`: what an operation multiplies determinants by, and when this is zero;
* `row_operations_product`: all of this about `tryRowOps` beside a second matrix.
-/

namespace FluxBalance.DenseMatrix

variable {α : Type} [Scalar α]

/-! ### Checked operations -/

namespace RowOp

/-- The rows of the operation are among the first `n`. -/
def Within (n : Nat) : RowOp α → Prop
  | scale r _ => r < n
  | add r1 r2 => r1 < n ∧ r2 < n
  | addScaled r1 r2 _ => r1 < n ∧ r2 < n
  | swap r1 r2 => r1 < n ∧ r2 < n

/-- The operation leaves nothing of a row: it scales it by zero, or adds minus one times the row to
itself. -/
def Collapses : RowOp α → Prop
  | scale _ s => s = 0
  | add _ _ => False
  | addScaled r1 r2 s => r1 = r2 ∧ s = -1
  | swap _ _ => False

instance (n : Nat) : (op : RowOp α) → Decidable (op.Within n)
  | scale r _ => inferInstanceAs (Decidable (r < n))
  | add r1 r2 => inferInstanceAs (Decidable (r1 < n ∧ r2 < n))
  | addScaled r1 r2 _ => inferInstanceAs (Decidable (r1 < n ∧ r2 < n))
  | swap r1 r2 => inferInstanceAs (Decidable (r1 < n ∧ r2 < n))

instance [DecidableEq α] : (op : RowOp α) → Decidable op.Collapses
  | scale _ s => inferInstanceAs (Decidable (s = 0))
  | add _ _ => inferInstanceAs (Decidable False)
  | addScaled r1 r2 s => inferInstanceAs (Decidable (r1 = r2 ∧ s = -1))
  | swap _ _ => inferInstanceAs (Decidable False)

end RowOp

/-- The matrix after one row operation with checked indices. -/
def tryRowOp (A : DenseMatrix α) : RowOp α → Except MatrixError (DenseMatrix α)
  | .scale r s => A.scaleRow r s
  | .add r1 r2 => A.addRow r1 r2
  | .addScaled r1 r2 s => A.addScaledRow r1 r2 s
  | .swap r1 r2 => A.swapRows r1 r2

/-- The matrix after a sequence of row operations with checked indices, the first one applied
first. -/
def tryRowOps (A : DenseMatrix α) (ops : List (RowOp α)) : Except MatrixError (DenseMatrix α) :=
  ops.foldlM tryRowOp A

section

variable {A B : DenseMatrix α} {op : RowOp α} {ops : List (RowOp α)} {n : Nat}

@[simp] theorem rows_applyRowOp (A : DenseMatrix α) (op : RowOp α) :
    (A.applyRowOp op).rows = A.rows := by
  cases op with
  | swap r1 r2 => exact rows_rowSwap r1 r2
  | _ => rfl

@[simp] theorem cols_applyRowOp (A : DenseMatrix α) (op : RowOp α) :
    (A.applyRowOp op).cols = A.cols := by
  cases op with
  | swap r1 r2 => exact cols_rowSwap r1 r2
  | _ => rfl

@[simp] theorem rows_applyRowOps (A : DenseMatrix α) (ops : List (RowOp α)) :
    (A.applyRowOps ops).rows = A.rows := by
  induction ops generalizing A with
  | nil => rfl
  | cons op ops ih => exact (ih _).trans (rows_applyRowOp A op)

@[simp] theorem cols_applyRowOps (A : DenseMatrix α) (ops : List (RowOp α)) :
    (A.applyRowOps ops).cols = A.cols := by
  induction ops generalizing A with
  | nil => rfl
  | cons op ops ih => exact (ih _).trans (cols_applyRowOp A op)

omit [Scalar α] in
private theorem checkRow_natCast {r : Nat} (h : r < A.rows) : A.checkRow r = .ok r := by
  rw [checkRow, if_pos ⟨Int.natCast_nonneg r, Int.ofNat_lt.mpr h⟩, Int.toNat_natCast]

/-- An operation on rows of the matrix is not refused. -/
private theorem tryRowOp_eq_ok (h : op.Within A.rows) : A.tryRowOp op = .ok (A.applyRowOp op) := by
  cases op with
  | scale r s =>
    rw [tryRowOp, scaleRow, checkRow_natCast h]
    rfl
  | add r1 r2 =>
    rw [tryRowOp, addRow, checkRow_natCast h.1, checkRow_natCast h.2]
    rfl
  | addScaled r1 r2 s =>
    rw [tryRowOp, addScaledRow, checkRow_natCast h.1, checkRow_natCast h.2]
    rfl
  | swap r1 r2 =>
    rw [tryRowOp, swapRows, checkRow_natCast h.1, checkRow_natCast h.2]
    rfl

/-- A sequence of checked operations `Within` the matrix succeeds and is `applyRowOps`. -/
private theorem tryRowOps_eq_ok (h : ∀ op ∈ ops, op.Within A.rows) :
    A.tryRowOps ops = .ok (A.applyRowOps ops) := by
  induction ops generalizing A with
  | nil => rfl
  | cons op ops ih =>
    obtain ⟨hop, hops⟩ := List.forall_mem_cons.mp h
    rw [tryRowOps, List.foldlM_cons, tryRowOp_eq_ok hop]
    exact ih (by rwa [rows_applyRowOp])

end

variable [Scalar.Exact α] {A B : DenseMatrix α} {op : RowOp α} {ops : List (RowOp α)} {n : Nat}

/-! ### Operations as factors -/

/-- Every row of the result is a combination of two rows of the matrix. Which rows, and with which
factors, depends on the operation alone. -/
private theorem exists_combination (op : RowOp α) (i : Nat) :
    ∃ (c : α) (p : Nat) (d : α) (q : Nat), ∀ (A : DenseMatrix α) (j : Nat), i < A.rows →
      j < A.cols → (A.applyRowOp op).entry i j = c * A.entry p j + d * A.entry q j := by
  cases op with
  | scale r s =>
    refine ⟨if r = i then s else 1, i, 0, i, fun A j hi hj => (entry_rowScale A s hi hj).trans ?_⟩
    split <;> ring
  | add r1 r2 =>
    refine ⟨1, i, if r2 = i then 1 else 0, r1, fun A j hi hj => (entry_rowAdd A hi hj).trans ?_⟩
    split <;> ring
  | addScaled r1 r2 s =>
    refine ⟨1, i, if r2 = i then s else 0, r1,
      fun A j hi hj => (entry_scaledRowAdd A s hi hj).trans ?_⟩
    split <;> ring
  | swap r1 r2 =>
    refine ⟨1, if i = r1 then r2 else if i = r2 then r1 else i, 0, i,
      fun A j hi hj => (entry_rowSwap A hi hj).trans ?_⟩
    ring

/-- **An operation on a product is one on its left factor.** -/
theorem applyRowOp_times (A B : DenseMatrix α) (op : RowOp α) :
    (A.times B).applyRowOp op = (A.applyRowOp op).times B := by
  refine ext_entry (by simp) (by simp) fun i j hi hj => ?_
  have hi : i < A.rows := by simpa using hi
  have hj : j < B.cols := by simpa using hj
  obtain ⟨c, p, d, q, hcombination⟩ := exists_combination op i
  have hleft : ∀ k ∈ Finset.range A.cols, (A.applyRowOp op).entry i k * B.entry k j =
      c * (A.entry p k * B.entry k j) + d * (A.entry q k * B.entry k j) := by
    intro k hk
    rw [hcombination A k hi (Finset.mem_range.mp hk)]
    ring
  calc ((A.times B).applyRowOp op).entry i j
    _ = c * (A.times B).entry p j + d * (A.times B).entry q j := hcombination _ j hi hj
    _ = ∑ k ∈ Finset.range A.cols,
        (c * (A.entry p k * B.entry k j) + d * (A.entry q k * B.entry k j)) := by
      rw [entry_times_eq_sum, entry_times_eq_sum, Finset.sum_add_distrib, Finset.mul_sum,
        Finset.mul_sum]
    _ = ((A.applyRowOp op).times B).entry i j := by
      rw [entry_times_eq_sum, cols_applyRowOp, Finset.sum_congr rfl hleft]

/-- A sequence of operations on a product is one on its left factor, by `applyRowOp_times`. -/
private theorem applyRowOps_times (A B : DenseMatrix α) (ops : List (RowOp α)) :
    (A.times B).applyRowOps ops = (A.applyRowOps ops).times B := by
  induction ops generalizing A with
  | nil => rfl
  | cons op ops ih => exact (congrArg (·.applyRowOps ops) (applyRowOp_times A B op)).trans (ih _)

private theorem identity_times (h : A.rows = n) : (identity n).times A = A := by
  refine ext_entry h.symm rfl fun i j (hi : i < n) (hj : j < A.cols) => ?_
  rw [entry_times_eq_dot _ _ hi hj, dot_identity hi]

/-- What a sequence of operations makes of the `identity`. -/
def rowMatrix (n : Nat) (ops : List (RowOp α)) : DenseMatrix α := (identity n).applyRowOps ops

omit [Scalar.Exact α] in
@[simp] theorem rows_rowMatrix (n : Nat) (ops : List (RowOp α)) : (rowMatrix n ops).rows = n :=
  rows_applyRowOps _ ops

omit [Scalar.Exact α] in
@[simp] theorem cols_rowMatrix (n : Nat) (ops : List (RowOp α)) : (rowMatrix n ops).cols = n :=
  cols_applyRowOps _ ops

/-- **A sequence of operations is a product** with what it makes of the identity. -/
theorem applyRowOps_eq_times (h : A.rows = n) : A.applyRowOps ops = (rowMatrix n ops).times A := by
  rw [rowMatrix, ← applyRowOps_times, identity_times h]

/-! ### Operations that can be undone -/

/-- What the operation multiplies determinants by. -/
def RowOp.factor : RowOp α → α
  | scale _ s => s
  | add r1 r2 => if r1 = r2 then 1 + 1 else 1
  | addScaled r1 r2 s => if r1 = r2 then 1 + s else 1
  | swap r1 r2 => if r1 = r2 then 1 else -1

/-- The `factor` of an operation vanishes exactly if nothing is left of a row. -/
private theorem RowOp.factor_eq_zero_iff (op : RowOp α) : op.factor = 0 ↔ op.Collapses := by
  cases op with
  | scale r s => exact Iff.rfl
  | add r1 r2 =>
    refine iff_of_false ?_ id
    rw [factor]
    split
    · exact (add_pos one_pos one_pos).ne'
    · exact one_ne_zero
  | addScaled r1 r2 s =>
    rw [factor, Collapses]
    split
    · rename_i h
      rw [and_iff_right h, add_comm, add_eq_zero_iff_eq_neg]
    · rename_i h
      exact iff_of_false one_ne_zero fun hboth => h hboth.1
  | swap r1 r2 =>
    refine iff_of_false ?_ id
    rw [factor]
    split
    · exact one_ne_zero
    · exact neg_ne_zero.mpr one_ne_zero

/-- Scaling a row scales the determinant. -/
private theorem det_toMatrix_rowScale (hrows : A.rows = n) (hcols : A.cols = n) {r : Nat}
    (hr : r < n) (s : α) : ((A.rowScale r s).toMatrix n).det = s * (A.toMatrix n).det := by
  have hscaled : (A.rowScale r s).toMatrix n =
      .of fun i j => (if i = ⟨r, hr⟩ then s else 1) * A.toMatrix n i j := by
    ext i j
    rw [toMatrix_apply, entry_rowScale A s (hrows ▸ i.isLt) (hcols ▸ j.isLt), Matrix.of_apply,
      toMatrix_apply]
    simp only [Fin.ext_iff, eq_comm (a := r)]
    split <;> ring
  rw [hscaled, Matrix.det_mul_column, Finset.prod_ite_eq', if_pos (Finset.mem_univ _)]

/-- Adding a multiple of a row to itself scales it. -/
private theorem scaledRowAdd_self (A : DenseMatrix α) (r : Nat) (s : α) :
    A.scaledRowAdd r r s = A.rowScale r (1 + s) := by
  refine ext_entry rfl rfl fun i j (hi : i < A.rows) (hj : j < A.cols) => ?_
  rw [entry_scaledRowAdd A s hi hj, entry_rowScale A _ hi hj]
  split
  · rename_i h
    rw [h]
    ring
  · rfl

/-- Adding a row is adding it once. -/
private theorem rowAdd_eq_scaledRowAdd (A : DenseMatrix α) (r1 r2 : Nat) :
    A.rowAdd r1 r2 = A.scaledRowAdd r1 r2 1 := by
  refine ext_entry rfl rfl fun i j (hi : i < A.rows) (hj : j < A.cols) => ?_
  rw [entry_rowAdd A hi hj, entry_scaledRowAdd A 1 hi hj, one_mul]

/-- Adding a multiple of another row keeps the determinant; a row added to itself is scaled. -/
private theorem det_toMatrix_scaledRowAdd (hrows : A.rows = n) (hcols : A.cols = n) {r1 r2 : Nat}
    (hr1 : r1 < n) (s : α) : ((A.scaledRowAdd r1 r2 s).toMatrix n).det =
      (if r1 = r2 then 1 + s else 1) * (A.toMatrix n).det := by
  split
  · rename_i h
    rw [← h, scaledRowAdd_self, det_toMatrix_rowScale hrows hcols hr1]
  · rename_i h
    have hcleared : ClearedBy r1 (fun i => if i = r2 then s else 0) A (A.scaledRowAdd r1 r2 s) := by
      refine ⟨rfl, rfl, fun i hi j hj => ?_⟩
      rw [entry_scaledRowAdd A s hi hj]
      simp only [eq_comm (a := r2)]
      split <;> ring
    rw [hcleared.det_toMatrix hrows hcols hr1 (if_neg h), one_mul]

/-- **An operation multiplies the determinant by its `factor`.** -/
theorem det_toMatrix_applyRowOp (hrows : A.rows = n) (hcols : A.cols = n) (hop : op.Within n) :
    ((A.applyRowOp op).toMatrix n).det = op.factor * (A.toMatrix n).det := by
  cases op with
  | scale r s => exact det_toMatrix_rowScale hrows hcols hop s
  | add r1 r2 =>
    rw [applyRowOp, rowAdd_eq_scaledRowAdd]
    exact det_toMatrix_scaledRowAdd hrows hcols hop.1 1
  | addScaled r1 r2 s => exact det_toMatrix_scaledRowAdd hrows hcols hop.1 s
  | swap r1 r2 =>
    rw [applyRowOp, det_toMatrix_rowSwap hrows hcols hop.1 hop.2, RowOp.factor]
    simp only [ne_comm (a := r2), ne_eq, ite_not]
    split <;> ring

/-- A sequence of operations multiplies the determinant by the factors of all of them. -/
private theorem det_toMatrix_applyRowOps (hrows : A.rows = n) (hcols : A.cols = n)
    (hops : ∀ op ∈ ops, op.Within n) :
    ((A.applyRowOps ops).toMatrix n).det = (ops.map RowOp.factor).prod * (A.toMatrix n).det := by
  induction ops generalizing A with
  | nil => rw [List.map_nil, List.prod_nil, one_mul]; rfl
  | cons op ops ih =>
    obtain ⟨hop, hops⟩ := List.forall_mem_cons.mp hops
    have hrest := ih ((rows_applyRowOp A op).trans hrows) ((cols_applyRowOp A op).trans hcols) hops
    rw [det_toMatrix_applyRowOp hrows hcols hop] at hrest
    rw [List.map_cons, List.prod_cons, mul_comm op.factor, mul_assoc]
    exact hrest

/-- A square matrix has an inverse on both sides exactly if its determinant is other than zero. -/
private theorem exists_inverse_iff (hrows : A.rows = n) (hcols : A.cols = n) :
    (∃ F, A.product F = .ok (identity n) ∧ F.product A = .ok (identity n)) ↔
      (A.toMatrix n).det ≠ 0 := by
  rw [← isUnit_iff_ne_zero, ← Matrix.isUnit_iff_isUnit_det]
  constructor
  · rintro ⟨F, hright, hleft⟩
    obtain ⟨hF, hright⟩ := product_eq_ok_iff.mp hright
    have hFcols : F.cols = n := (congrArg cols hright).symm
    exact IsUnit.of_mul_eq_one _ ((times_eq_identity_iff hrows hcols hFcols).mp hright.symm)
  · intro hunit
    have hsuccess := (success_iff_isUnit hrows hcols).mpr hunit
    obtain ⟨hF, hFcols, hundoes⟩ := undoes_of_invertSquare (R := A.invertSquare.2)
      (hrows.trans hcols.symm) (Prod.ext hsuccess rfl)
    have hright : A.times A.invertSquare.2 = identity n :=
      hrows ▸ hundoes.times_eq_identity hFcols
    have hleft : A.invertSquare.2.times A = identity n :=
      (times_eq_identity_comm hrows hcols (hF.trans hrows) (hFcols.trans hrows)).mp hright
    refine ⟨A.invertSquare.2, ?_, ?_⟩
    · rw [product_eq_ok (hcols.trans (hF.trans hrows).symm), hright]
    · rw [product_eq_ok hFcols, hleft]

/-- The matrix of a sequence has an inverse exactly if no operation of the sequence `Collapses`. -/
private theorem exists_inverse_rowMatrix_iff (hops : ∀ op ∈ ops, op.Within n) :
    (∃ F, (rowMatrix n ops).product F = .ok (identity n) ∧
      F.product (rowMatrix n ops) = .ok (identity n)) ↔ ∀ op ∈ ops, ¬op.Collapses := by
  have hdet : ((rowMatrix n ops).toMatrix n).det = (ops.map RowOp.factor).prod := by
    rw [rowMatrix, det_toMatrix_applyRowOps (n := n) rfl rfl hops, toMatrix_identity,
      Matrix.det_one, mul_one]
  rw [exists_inverse_iff (rows_rowMatrix n ops) (cols_rowMatrix n ops), hdet, ne_eq,
    List.prod_eq_zero_iff, List.mem_map]
  simp only [← RowOp.factor_eq_zero_iff, not_exists, not_and]

/-! ### Sequences -/

/-- **Row operations are a product.** For every sequence of row operations on `n` rows there is a
square matrix, the same for all matrices with `n` rows, such that applying the sequence with checked
indices succeeds and gives the product with it; on two matrices side by side the sequence acts on
each of them. The matrix has an inverse exactly if no step scales a row by zero or adds minus one
times a row to itself. -/
theorem row_operations_product (n : Nat) (ops : List (RowOp α)) (hops : ∀ op ∈ ops, op.Within n) :
    ∃ E : DenseMatrix α, E.rows = n ∧ E.cols = n ∧
      (∀ A : DenseMatrix α, A.rows = n →
        ∃ R, A.tryRowOps ops = .ok R ∧ E.product A = .ok R) ∧
      (∀ A B : DenseMatrix α, A.rows = n → B.rows = n →
        ∃ AB EA EB R, A.augment B = .ok AB ∧ E.product A = .ok EA ∧ E.product B = .ok EB ∧
          EA.augment EB = .ok R ∧ AB.tryRowOps ops = .ok R) ∧
      ((∃ F, E.product F = .ok (identity n) ∧ F.product E = .ok (identity n)) ↔
        ∀ op ∈ ops, ¬op.Collapses) := by
  have hE (A : DenseMatrix α) (hA : A.rows = n) : (rowMatrix n ops).cols = A.rows :=
    (cols_rowMatrix n ops).trans hA.symm
  refine ⟨rowMatrix n ops, rows_rowMatrix n ops, cols_rowMatrix n ops, fun A hA => ?_,
    fun A B hA hB => ?_, exists_inverse_rowMatrix_iff hops⟩
  · refine ⟨A.applyRowOps ops, tryRowOps_eq_ok (hA ▸ hops), ?_⟩
    rw [applyRowOps_eq_times hA]
    exact product_eq_ok (hE A hA)
  · refine ⟨A.beside B, (rowMatrix n ops).times A, (rowMatrix n ops).times B,
      (A.beside B).applyRowOps ops, augment_eq_ok (hA.trans hB.symm), product_eq_ok (hE A hA),
      product_eq_ok (hE B hB), ?_, tryRowOps_eq_ok (hA ▸ hops)⟩
    rw [applyRowOps_eq_times (A := A.beside B) hA, times_beside (hE A hA)]
    exact augment_eq_ok rfl

/-- Operations that take a row from itself, none of which collapses it. -/
def rowsOnThemselves : List (RowOp Rat) :=
  [.add 1 1, .swap 0 0, .addScaled 0 0 (-3), .addScaled 0 1 2]

/-- Two rows are exchanged, and then one is taken from itself altogether. -/
def rowLost : List (RowOp Rat) := [.swap 0 1, .addScaled 1 1 (-1)]

/-- Rows may be added to themselves: `rowsOnThemselves` can be undone, `rowLost` cannot. -/
theorem row_operations_product_onThemselves :
    (∃ E : DenseMatrix Rat,
      (∀ A : DenseMatrix Rat, A.rows = 2 →
        ∃ R, A.tryRowOps rowsOnThemselves = .ok R ∧ E.product A = .ok R) ∧
      ∃ F, E.product F = .ok (identity 2) ∧ F.product E = .ok (identity 2)) ∧
    ∃ E : DenseMatrix Rat,
      (∀ A : DenseMatrix Rat, A.rows = 2 →
        ∃ R, A.tryRowOps rowLost = .ok R ∧ E.product A = .ok R) ∧
      ¬∃ F, E.product F = .ok (identity 2) ∧ F.product E = .ok (identity 2) := by
  obtain ⟨E, -, -, hproduct, -, hinverse⟩ := row_operations_product 2 rowsOnThemselves (by decide)
  obtain ⟨E', -, -, hproduct', -, hinverse'⟩ := row_operations_product 2 rowLost (by decide)
  exact ⟨⟨E, hproduct, hinverse.mpr (by decide)⟩, E', hproduct', hinverse'.not.mpr (by decide)⟩

end FluxBalance.DenseMatrix
