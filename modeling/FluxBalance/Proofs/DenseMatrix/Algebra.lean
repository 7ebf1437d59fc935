import FluxBalance.Proofs.DenseMatrix.Elimination

/-!
# Laws of matrix algebra

Outside its shape a matrix has the entry zero. So in exact arithmetic the entries of a product are
sums of products at all places, inside its shape and outside of it, and the laws of products become
laws of sums: associativity is the exchange of two sums, and a transposed product is the same sum
with its factors exchanged. Two matrices side by side can be multiplied one after the other, because
a column of the product depends on one column of the right factor only.

Cutting needs no arithmetic at all. What is cut out of two matrices side by side, left or right of
the seam, has the shape and the entries of one of them.

The main statement says all this of the checked operations, which succeed on shapes that fit.

## Main definitions and results

* `times_assoc`, `transpose_times`, `times_beside`: the laws of `times`, without checks of shapes;
* `laws_of_algebra`: the laws of the checked operations on shapes that fit.
-/

namespace FluxBalance.DenseMatrix

variable {α : Type} [Scalar α] {A B C : DenseMatrix α}

/-! ### Shapes that fit -/

@[simp] theorem rows_times (A B : DenseMatrix α) : (A.times B).rows = A.rows := rfl

@[simp] theorem cols_times (A B : DenseMatrix α) : (A.times B).cols = B.cols := rfl

@[simp] theorem rows_beside (A B : DenseMatrix α) : (A.beside B).rows = A.rows := rfl

@[simp] theorem cols_beside (A B : DenseMatrix α) : (A.beside B).cols = A.cols + B.cols := rfl

/-- Matrices with as many rows can be put side by side, `beside`. -/
theorem augment_eq_ok (h : A.rows = B.rows) : A.augment B = .ok (A.beside B) := if_pos h

/-- Matrices whose shapes fit can be multiplied, `times`. -/
theorem product_eq_ok (h : A.cols = B.rows) : A.product B = .ok (A.times B) := if_pos h

/-! ### Seams -/

/-- Both corners of a block that is cut out lie inside the shape, and the second one is not above
the first or left of it. -/
private theorem subset_eq_ok_iff {r1 c1 r2 c2 : Int} :
    A.subset r1 c1 r2 c2 = .ok B ↔
      ∃ i j k l : Nat, r1 = i ∧ c1 = j ∧ r2 = k ∧ c2 = l ∧ i ≤ k ∧ j ≤ l ∧ k < A.rows ∧
        l < A.cols ∧ B = A.block i j (k + 1 - i) (l + 1 - j) := by
  rw [subset]
  simp only [except_bind_eq_ok, Prod.exists, checkIndex_eq_ok_iff]
  constructor
  · rintro ⟨i, j, ⟨hi, hj, -, -⟩, k, l, ⟨hk, hl, hkrows, hlcols⟩, h⟩
    split at h
    · cases h
    · cases h
      exact ⟨i, j, k, l, hi, hj, hk, hl, by omega, by omega, hkrows, hlcols, rfl⟩
  · rintro ⟨i, j, k, l, hi, hj, hk, hl, hik, hjl, hkrows, hlcols, rfl⟩
    refine ⟨i, j, ⟨hi, hj, by omega, by omega⟩, k, l, ⟨hk, hl, hkrows, hlcols⟩, ?_⟩
    rw [if_neg (by omega)]
    rfl

/-- Left of the seam stands the first matrix. -/
private theorem block_beside_left (A B : DenseMatrix α) :
    (A.beside B).block 0 0 A.rows A.cols = A := by
  refine ext_entry rfl rfl fun i j (hi : i < A.rows) (hj : j < A.cols) => ?_
  rw [entry_block _ 0 0 hi hj, Nat.zero_add, Nat.zero_add, entry_beside_left A B hi hj]

/-- Right of the seam stands the second matrix, if it is as high as the first. -/
private theorem block_beside_right (hrows : A.rows = B.rows) :
    (A.beside B).block 0 A.cols A.rows B.cols = B := by
  refine ext_entry hrows rfl fun i j (hi : i < A.rows) (hj : j < B.cols) => ?_
  rw [entry_block _ 0 A.cols hi hj, Nat.zero_add, entry_beside_right A B hi hj]

/-! ### Products -/

section

variable [Scalar.Exact α]

/-- The entries of a product are sums of products, at places outside the shape as well: one factor
of each summand vanishes there. -/
theorem entry_times_eq_sum (A B : DenseMatrix α) (i j : Nat) :
    (A.times B).entry i j = ∑ k ∈ Finset.range A.cols, A.entry i k * B.entry k j := by
  by_cases h : i < A.rows ∧ j < B.cols
  · exact entry_times_eq_dot A B h.1 h.2
  · rw [entry_outside _ h]
    refine (Finset.sum_eq_zero fun k _ => ?_).symm
    rcases not_and_or.mp h with hi | hj
    · rw [entry_outside A fun hplace => hi hplace.1, zero_mul]
    · rw [entry_outside B fun hplace => hj hplace.2, mul_zero]

/-- **Products are associative.** -/
theorem times_assoc (A B C : DenseMatrix α) : (A.times B).times C = A.times (B.times C) := by
  refine ext_entry rfl rfl fun i j _ _ => ?_
  simp only [entry_times_eq_sum, cols_times, Finset.sum_mul, Finset.mul_sum, mul_assoc]
  exact Finset.sum_comm

/-- **A transposed product** is the product of the transposed factors in the other order. -/
theorem transpose_times (h : A.cols = B.rows) :
    (A.times B).transpose = B.transpose.times A.transpose := by
  refine ext_entry rfl rfl fun i j _ _ => ?_
  have hcols : B.transpose.cols = A.cols := h.symm
  simp only [entry_transpose, entry_times_eq_sum, hcols, mul_comm]

/-- **A product with two matrices side by side** is taken with one after the other. -/
theorem times_beside (hB : A.cols = B.rows) :
    A.times (B.beside C) = (A.times B).beside (A.times C) := by
  refine ext_entry rfl rfl fun i j (hi : i < A.rows) (hj : j < B.cols + C.cols) => ?_
  rw [entry_times_eq_sum]
  rcases Nat.lt_or_ge j B.cols with hleft | hright
  · rw [entry_beside_left (A.times B) _ hi hleft, entry_times_eq_sum]
    refine Finset.sum_congr rfl fun k hk => ?_
    rw [entry_beside_left B C (hB ▸ Finset.mem_range.mp hk) hleft]
  · obtain ⟨l, rfl⟩ := Nat.exists_eq_add_of_le hright
    have hl : l < C.cols := by omega
    have hplace : ((A.times B).beside (A.times C)).entry i (B.cols + l) = (A.times C).entry i l :=
      entry_beside_right (A.times B) _ hi hl
    rw [hplace, entry_times_eq_sum]
    refine Finset.sum_congr rfl fun k hk => ?_
    rw [entry_beside_right B C (hB ▸ Finset.mem_range.mp hk) hl]

/-! ### The laws -/

/-- **Laws of matrix algebra.** On shapes that fit, all operations succeed. Products are
associative; a transposed product is the product of the transposed factors in the other order, and
transposing twice gives a matrix back; a product with two matrices side by side is taken with each
of them; and cutting two matrices side by side at the column where the second one starts gives both
of them back. -/
theorem laws_of_algebra :
    (∀ A B C : DenseMatrix α, A.cols = B.rows → B.cols = C.rows →
      ∃ AB BC R, A.product B = .ok AB ∧ B.product C = .ok BC ∧
        AB.product C = .ok R ∧ A.product BC = .ok R) ∧
    (∀ A B : DenseMatrix α, A.cols = B.rows →
      ∃ AB, A.product B = .ok AB ∧ B.transpose.product A.transpose = .ok AB.transpose) ∧
    (∀ A : DenseMatrix α, A.transpose.transpose = A) ∧
    (∀ A B C : DenseMatrix α, A.cols = B.rows → B.rows = C.rows →
      ∃ BC AB AC R, B.augment C = .ok BC ∧ A.product B = .ok AB ∧ A.product C = .ok AC ∧
        A.product BC = .ok R ∧ AB.augment AC = .ok R) ∧
    (∀ A B : DenseMatrix α, A.rows = B.rows → 0 < A.rows → 0 < A.cols → 0 < B.cols →
      ∃ AB, A.augment B = .ok AB ∧
        AB.subset 0 0 (A.rows - 1) (A.cols - 1) = .ok A ∧
        AB.subset 0 A.cols (A.rows - 1) (A.cols + B.cols - 1) = .ok B) := by
  refine ⟨fun A B C hAB hBC => ?_, fun A B hAB => ?_, transpose_transpose,
    fun A B C hAB hBC => ?_, fun A B hrows hpos hA hB => ?_⟩
  · refine ⟨A.times B, B.times C, A.times (B.times C), product_eq_ok hAB, product_eq_ok hBC, ?_,
      product_eq_ok hAB⟩
    rw [← times_assoc]
    exact product_eq_ok hBC
  · refine ⟨A.times B, product_eq_ok hAB, ?_⟩
    rw [transpose_times hAB]
    exact product_eq_ok hAB.symm
  · refine ⟨B.beside C, A.times B, A.times C, A.times (B.beside C), augment_eq_ok hBC,
      product_eq_ok hAB, product_eq_ok (hAB.trans hBC), product_eq_ok hAB, ?_⟩
    rw [times_beside hAB]
    exact augment_eq_ok rfl
  · -- The last rows and columns of the two parts are within the shape of the whole.
    refine ⟨A.beside B, augment_eq_ok hrows, ?_, ?_⟩
    · refine subset_eq_ok_iff.mpr ⟨0, 0, A.rows - 1, A.cols - 1, rfl, rfl, by omega, by omega,
        Nat.zero_le _, Nat.zero_le _, ?_, ?_, ?_⟩
      · exact Nat.sub_lt hpos Nat.one_pos
      · rw [cols_beside]
        omega
      · rw [Nat.sub_zero, Nat.sub_zero, Nat.sub_add_cancel hpos, Nat.sub_add_cancel hA,
          block_beside_left]
    · refine subset_eq_ok_iff.mpr ⟨0, A.cols, A.rows - 1, A.cols + B.cols - 1, rfl, rfl, by omega,
        by omega, Nat.zero_le _, by omega, ?_, ?_, ?_⟩
      · exact Nat.sub_lt hpos Nat.one_pos
      · rw [cols_beside]
        omega
      · rw [Nat.sub_zero, Nat.sub_add_cancel hpos,
          show A.cols + B.cols - 1 + 1 - A.cols = B.cols by omega, block_beside_right hrows]

end

/-- A single row. -/
def singleRow : DenseMatrix Rat := ofFn 1 2 fun _ j => (#[2, -1].getD j 0)

/-- More columns than rows. -/
def wideMatrix : DenseMatrix Rat :=
  ofFn 2 3 fun i j => (#[#[1, 0, 4], #[-3, mkRat 1 2, 5]].getD i #[]).getD j 0

/-- A single column. -/
def singleColumn : DenseMatrix Rat := ofFn 3 1 fun i _ => (#[1, 2, mkRat 1 3].getD i 0)

/-- The laws at a row of three numbers, a wide matrix and a column: each of their products,
transposes and cuts is computed. -/
theorem laws_of_algebra_rectangular :
    (∃ AB BC R, singleRow.product wideMatrix = .ok AB ∧ wideMatrix.product singleColumn = .ok BC ∧
      AB.product singleColumn = .ok R ∧ singleRow.product BC = .ok R) ∧
    (∃ AB, singleRow.product wideMatrix = .ok AB ∧
      wideMatrix.transpose.product singleRow.transpose = .ok AB.transpose) ∧
    wideMatrix.transpose.transpose = wideMatrix ∧
    (∃ BC AB AC R, wideMatrix.augment (identity 2) = .ok BC ∧
      singleRow.product wideMatrix = .ok AB ∧ singleRow.product (identity 2) = .ok AC ∧
      singleRow.product BC = .ok R ∧ AB.augment AC = .ok R) ∧
    ∃ AB, wideMatrix.augment (identity 2) = .ok AB ∧ AB.subset 0 0 1 2 = .ok wideMatrix ∧
      AB.subset 0 3 1 4 = .ok (identity 2) := by
  obtain ⟨hassoc, htranspose, hinvolution, hbeside, hcut⟩ := laws_of_algebra (α := Rat)
  exact ⟨hassoc singleRow wideMatrix singleColumn rfl rfl, htranspose singleRow wideMatrix rfl,
    hinvolution wideMatrix, hbeside singleRow wideMatrix (identity 2) rfl rfl,
    hcut wideMatrix (identity 2) rfl (by decide) (by decide) (by decide)⟩

end FluxBalance.DenseMatrix
