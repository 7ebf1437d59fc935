import FluxBalance.Proofs.DenseMatrix.Determinant

/-!
# Inverses in exact arithmetic

Gauss–Jordan elimination turns the columns of a matrix into those of the identity one after the
other. If they are `Independent` it does not fail, and what it makes of the identity beside the
matrix is an inverse: the homogeneous equations of the two matrices side by side have kept their
solutions.

## Main definitions and results

* `Reduced`, `Reduced.step`: the invariant of `reduce`, and that one more column keeps it;
* `Undoes`, `undoes_of_invertSquare`: what inversion leaves is a right inverse;
* `invertSquare_of_independent`: a square matrix with `Independent` columns is inverted.
-/

namespace FluxBalance.DenseMatrix

variable {α : Type} [Scalar α] [Scalar.Exact α] {A B C : DenseMatrix α}

/-! ### Unit columns -/

/-- The first `k` columns are those of the identity. -/
def UnitColumns (A : DenseMatrix α) (k : Nat) : Prop :=
  ∀ j < k, ∀ i < A.rows, A.entry i j = if i = j then 1 else 0

private theorem UnitColumns.triangular {k : Nat} (h : A.UnitColumns k) (hk : k ≤ A.rows) :
    A.Triangular k where
  below j hj i hi hji := by rw [h j hj i hi, if_neg (by omega)]
  diagonal j hj := by
    rw [h j hj j (by omega), if_pos rfl]
    exact one_ne_zero

omit [Scalar.Exact α] in
/-- Bringing the next pivot into its row leaves the columns before alone: they hold zeros from that
row on. -/
theorem UnitColumns.pivotSwap {k : Nat} (h : A.UnitColumns k) (hk : k < A.rows)
    (hcol : k < A.cols) : (A.rowSwap k (A.pivotRow k)).UnitColumns k := by
  intro j hj i hi
  rw [rows_rowSwap] at hi
  by_cases hik : i < k
  · rw [entry_pivotSwap_of_lt hk hik (by omega), h j hj i hi]
  · rw [if_neg (by omega)]
    refine entry_pivotSwap_of_le hk (by omega) hi (by omega) fun r hkr hr => ?_
    rw [h j hj r hr, if_neg (by omega)]

/-- Scaling the row of the next pivot does not touch the columns of the identity before it. -/
theorem UnitColumns.rowScale {k : Nat} (h : A.UnitColumns k) (hk : k < A.rows) (hcol : k < A.cols)
    (x : α) : (A.rowScale k x).UnitColumns k := by
  intro j hj i hi
  have hrow : A.entry k j = 0 := by
    rw [h j hj k hk, if_neg (by omega)]
  rw [entry_rowScale A x hi (by omega)]
  split
  · rename_i hki
    rw [← hki, hrow, zero_mul, if_neg (by omega)]
  · exact h j hj i hi

/-- Clearing a column with a one in its row makes it a column of the identity. -/
theorem UnitColumns.clearColumn {k : Nat} (h : A.UnitColumns k) (hk : k < A.rows)
    (hcol : k < A.cols) (hone : A.entry k k = 1) : (A.clearColumn k).UnitColumns (k + 1) := by
  have hclear := clearedBy_clearColumn hk hcol
  intro j hj i hi
  rw [hclear.rows] at hi
  rw [hclear.entry i hi j (by omega)]
  rcases Nat.lt_or_eq_of_le (Nat.le_of_lt_succ hj) with hjk | rfl
  · have hrow : A.entry k j = 0 := by
      rw [h j hjk k hk, if_neg (by omega)]
    rw [hrow, mul_zero, add_zero, h j hjk i hi]
  · by_cases hij : i = j
    · rw [if_pos hij, if_pos hij, hij, hone, zero_mul, add_zero]
    · rw [if_neg hij, if_neg hij, hone, mul_one, add_neg_cancel]

/-- A step of the elimination succeeds exactly if the pivot is other than zero. -/
private theorem reduceColumn_eq_some_iff {k : Nat} : A.reduceColumn k = some B ↔
    A.entry (A.pivotRow k) k ≠ 0 ∧ B = ((A.rowSwap k (A.pivotRow k)).rowScale k
      (1 / (A.rowSwap k (A.pivotRow k)).entry k k)).clearColumn k := by
  unfold reduceColumn
  dsimp only
  split
  · rename_i hzero
    simp [Scalar.Exact.eq_iff.mp hzero]
  · rename_i hpivot
    rw [Scalar.Exact.eq_iff] at hpivot
    simp [hpivot, eq_comm]

/-- What elimination has made of a matrix after `k` columns. -/
structure Reduced (A : DenseMatrix α) (k : Nat) (B : DenseMatrix α) : Prop where
  rows : B.rows = A.rows
  cols : B.cols = A.cols
  unit : B.UnitColumns k
  solves : ∀ z, B.Solves z ↔ A.Solves z

/-- **One more column is turned into a column of the identity**, and the solutions stay the same. -/
theorem Reduced.step {k : Nat} (h : A.Reduced k B) (hk : k < A.rows) (hcol : k < A.cols)
    (hC : B.reduceColumn k = some C) : A.Reduced (k + 1) C := by
  obtain ⟨hpivot, rfl⟩ := reduceColumn_eq_some_iff.mp hC
  have hkB : k < B.rows := h.rows ▸ hk
  have hcolB : k < B.cols := h.cols ▸ hcol
  obtain ⟨-, hp⟩ := le_pivotRow_and_lt hkB
  set S := B.rowSwap k (B.pivotRow k) with hS
  have hrows : S.rows = B.rows := rows_rowSwap _ _
  have hcols : S.cols = B.cols := cols_rowSwap _ _
  have hkS : k < S.rows := hrows ▸ hkB
  have hcolS : k < S.cols := hcols ▸ hcolB
  have hkk : S.entry k k ≠ 0 := by
    rw [hS, entry_pivotSwap_self hkB hcolB]
    exact hpivot
  set D := S.rowScale k (1 / S.entry k k) with hD
  have hone : D.entry k k = 1 := by
    rw [hD, entry_rowScale S _ hkS hcolS, if_pos rfl]
    exact mul_one_div_cancel hkk
  have hunit : D.UnitColumns k := (h.unit.pivotSwap hkB hcolB).rowScale hkS hcolS _
  have hclear := clearedBy_clearColumn (A := D) hkS hcolS
  refine ⟨hclear.rows.trans (hrows.trans h.rows), hclear.cols.trans (hcols.trans h.cols),
    hunit.clearColumn hkS hcolS hone, fun z => ?_⟩
  calc (D.clearColumn k).Solves z
    _ ↔ D.Solves z := hclear.solves_iff hkS (if_pos rfl)
    _ ↔ S.Solves z := solves_rowScale (one_div_ne_zero hkk)
    _ ↔ B.Solves z := solves_rowSwap hkB hp
    _ ↔ A.Solves z := h.solves z

/-- If the columns are `Independent`, one more column can be eliminated. -/
private theorem Reduced.exists_step {k : Nat} (h : A.Reduced k B) (hk : k < A.rows)
    (hcol : k < A.cols) (hind : A.Independent A.rows) : ∃ C, B.reduceColumn k = some C := by
  have hkB : k < B.rows := h.rows ▸ hk
  have hindB : B.Independent B.rows := h.rows ▸ hind.of_solves_iff h.solves
  have hpivot :=
    pivot_ne_zero_of_triangular hkB (h.cols ▸ hcol) (h.unit.triangular hkB.le) hindB
  exact ⟨_, reduceColumn_eq_some_iff.mpr ⟨hpivot, rfl⟩⟩

private theorem reduced_zero (A : DenseMatrix α) : A.Reduced 0 A :=
  ⟨rfl, rfl, fun _ hj => absurd hj (by omega), fun _ => Iff.rfl⟩

omit [Scalar.Exact α] in
/-- One more column is one more `reduceColumn` at the end. -/
private theorem foldlM_range_succ_eq_some {m : Nat} :
    (List.range (m + 1)).foldlM reduceColumn A = some C ↔
      ∃ B, (List.range m).foldlM reduceColumn A = some B ∧ B.reduceColumn m = some C := by
  rw [List.range_succ, List.foldlM_append]
  simp [Option.bind_eq_some_iff]

/-- The first columns of what elimination makes are those of the identity. -/
private theorem reduced_of_foldlM (hcols : A.rows ≤ A.cols) :
    ∀ {m : Nat} {B : DenseMatrix α}, m ≤ A.rows →
      (List.range m).foldlM reduceColumn A = some B → A.Reduced m B
  | 0, B, _, h => by
    obtain rfl : A = B := Option.some.inj h
    exact reduced_zero A
  | m + 1, C, hm, h => by
    obtain ⟨B, hB, hC⟩ := foldlM_range_succ_eq_some.mp h
    exact (reduced_of_foldlM hcols (by omega) hB).step (by omega) (by omega) hC

/-- What `reduce` leaves is `Reduced` in all columns. -/
private theorem reduced_of_reduce (hcols : A.rows ≤ A.cols) (h : A.reduce = some B) :
    A.Reduced A.rows B := reduced_of_foldlM hcols le_rfl h

/-- **Elimination succeeds if the columns are `Independent`.** -/
theorem exists_reduce (hcols : A.rows ≤ A.cols) (hind : A.Independent A.rows) :
    ∃ B, A.reduce = some B := by
  -- The induction is on the number of columns that have been eliminated.
  have key : ∀ m ≤ A.rows, ∃ B, (List.range m).foldlM reduceColumn A = some B := by
    intro m
    induction m with
    | zero => exact fun _ => ⟨A, rfl⟩
    | succ m ih =>
      intro hm
      obtain ⟨B, hB⟩ := ih (by omega)
      obtain ⟨C, hC⟩ :=
        (reduced_of_foldlM hcols (by omega) hB).exists_step (by omega) (by omega) hind
      exact ⟨C, foldlM_range_succ_eq_some.mpr ⟨B, hB, hC⟩⟩
  exact key A.rows le_rfl

/-! ### Inversion -/

/-- A row of two matrices side by side meets the numbers one matrix after the other. -/
private theorem dot_beside (A B : DenseMatrix α) {i : Nat} (hi : i < A.rows) (z : Nat → α) :
    (A.beside B).dot i z = A.dot i z + B.dot i fun l => z (A.cols + l) := by
  unfold dot
  rw [show (A.beside B).cols = A.cols + B.cols from rfl, Finset.sum_range_add]
  congr 1
  · refine Finset.sum_congr rfl fun j hj => ?_
    rw [entry_beside_left A B hi (Finset.mem_range.mp hj)]
  · refine Finset.sum_congr rfl fun l hl => ?_
    rw [entry_beside_right A B hi (Finset.mem_range.mp hl)]

theorem dot_identity {n i : Nat} (hi : i < n) (z : Nat → α) :
    (identity n : DenseMatrix α).dot i z = z i := by
  have hentry : ∀ j ∈ Finset.range n, (identity n : DenseMatrix α).entry i j * z j =
      if i = j then z j else 0 := by
    intro j hj
    rw [entry_identity hi (Finset.mem_range.mp hj), ite_mul, one_mul, zero_mul]
  unfold dot
  rw [show (identity n : DenseMatrix α).cols = n from rfl, Finset.sum_congr rfl hentry,
    Finset.sum_ite_eq, if_pos (Finset.mem_range.mpr hi)]

/-- The second matrix undoes the first: a right inverse, said of columns of numbers. -/
def Undoes (A R : DenseMatrix α) : Prop :=
  ∀ (y : Nat → α), ∀ i < A.rows, A.dot i (fun j => R.dot j y) = y i

/-- What elimination makes of the `identity` is an inverse. -/
private theorem Reduced.undoes {n : Nat} (hrows : A.rows = n) (hcols : A.cols = n)
    (h : (A.beside (identity n)).Reduced n B) : A.Undoes (B.block 0 n n n) := by
  have hB : B.rows = n := h.rows.trans hrows
  have hBcols : B.cols = n + n := h.cols.trans (congrArg (· + n) hcols)
  intro y i hi
  have hright : ∀ j < n, (B.block 0 n n n).dot j y =
      ∑ l ∈ Finset.range n, B.entry j (n + l) * y l := by
    intro j hj
    unfold dot
    refine Finset.sum_congr rfl fun l hl => ?_
    rw [entry_block B 0 n hj (Finset.mem_range.mp hl), Nat.zero_add]
  -- The column that is to be shown, over the given one with its signs changed.
  let z : Nat → α := fun j => if j < n then (B.block 0 n n n).dot j y else -y (j - n)
  have hleft : ∀ j ∈ Finset.range n, z j = (B.block 0 n n n).dot j y := fun j hj =>
    if_pos (Finset.mem_range.mp hj)
  have hbeyond : ∀ l, z (n + l) = -y l := by
    intro l
    simp only [z]
    rw [if_neg (by omega), Nat.add_sub_cancel_left]
  have hz : B.Solves z := by
    intro j hj
    rw [hB] at hj
    have hunits : ∀ l ∈ Finset.range n, B.entry j l * z l = if j = l then z l else 0 := by
      intro l hl
      rw [h.unit l (Finset.mem_range.mp hl) j (hB ▸ hj), ite_mul, one_mul, zero_mul]
    unfold dot
    rw [hBcols, Finset.sum_range_add, Finset.sum_congr rfl hunits, Finset.sum_ite_eq,
      if_pos (Finset.mem_range.mpr hj), hleft j (Finset.mem_range.mpr hj), hright j hj,
      ← Finset.sum_add_distrib]
    refine Finset.sum_eq_zero fun l _ => ?_
    rw [hbeyond, mul_neg, add_neg_cancel]
  have hi' := (h.solves z).mp hz i hi
  have hdot : A.dot i z = A.dot i fun j => (B.block 0 n n n).dot j y := by
    unfold dot
    rw [hcols]
    exact Finset.sum_congr rfl fun j hj => by rw [hleft j hj]; rfl
  rw [dot_beside A _ hi, dot_identity (hrows ▸ hi), hcols, hbeyond, hdot] at hi'
  exact add_neg_eq_zero.mp hi'

/-- Independent columns stay so beside the `identity`. -/
private theorem Independent.beside_identity (hind : A.Independent A.rows)
    (hsquare : A.rows = A.cols) : (A.beside (identity A.rows)).Independent A.rows := by
  intro z hz hsolves
  refine hind z hz fun i hi => ?_
  have hdot := hsolves i hi
  rw [dot_beside A _ hi, dot_identity hi, hz (A.cols + i) (by omega), add_zero] at hdot
  exact hdot

theorem allFinite_eq_true (A : DenseMatrix α) : A.allFinite = true :=
  List.all_eq_true.mpr fun x _ => Scalar.Exact.isFinite_eq x

omit [Scalar.Exact α] in
/-- A square matrix beside the `identity` has a column for each row. -/
private theorem rows_le_cols_beside_identity (hsquare : A.rows = A.cols) :
    (A.beside (identity A.rows)).rows ≤ (A.beside (identity A.rows)).cols := by
  show A.rows ≤ A.cols + A.rows
  omega

/-- **What a successful attempt at inversion leaves is an inverse.** -/
theorem undoes_of_invertSquare {R : DenseMatrix α} (hsquare : A.rows = A.cols)
    (h : A.invertSquare = (.success, R)) : R.rows = A.rows ∧ R.cols = A.rows ∧ A.Undoes R := by
  unfold invertSquare at h
  dsimp only at h
  -- The empty matrix, a matrix with one entry, and all others, which are inverted by elimination.
  split at h
  · rename_i h0
    cases h
    exact ⟨rfl, hsquare.symm, fun y i hi => absurd hi (by omega)⟩
  split at h
  · cases h
  split at h
  · rename_i h1
    split at h
    · cases h
    rename_i hentry
    rw [Scalar.Exact.eq_iff] at hentry
    cases h
    refine ⟨rfl, hsquare.symm, fun y i hi => ?_⟩
    obtain rfl : i = 0 := by omega
    unfold dot
    dsimp only
    rw [cols_replace, ← hsquare, h1, Finset.sum_range_one, Finset.sum_range_one,
      entry_replace A _ (by omega) (by omega), if_pos ⟨rfl, rfl⟩, ← mul_assoc,
      mul_one_div_cancel hentry, one_mul]
  split at h
  · cases h
  split at h
  · cases h
  · rename_i B hB
    rw [if_pos (allFinite_eq_true _)] at h
    cases h
    exact ⟨rfl, rfl, (reduced_of_reduce (rows_le_cols_beside_identity hsquare) hB).undoes rfl
      hsquare.symm⟩

/-- The attempt at inverting a square matrix with `Independent` columns succeeds. -/
theorem success_of_independent (hsquare : A.rows = A.cols) (hind : A.Independent A.rows) :
    A.invertSquare.1 = .success := by
  unfold invertSquare
  dsimp only
  split
  · rfl
  rw [allFinite_eq_true A]
  simp only [Bool.not_true, Bool.false_eq_true, if_false]
  split
  · have hentry : A.entry 0 0 ≠ 0 := by
      have hpivot := pivot_ne_zero_of_triangular (A := A) (k := 0) (by omega) (by omega)
        ⟨fun j hj => absurd hj (by omega), fun j hj => absurd hj (by omega)⟩ hind
      obtain ⟨-, hp⟩ := le_pivotRow_and_lt (A := A) (k := 0) (by omega)
      rwa [show A.pivotRow 0 = 0 by omega] at hpivot
    rw [if_neg fun h => hentry (Scalar.Exact.eq_iff.mp h)]
  · obtain ⟨B, hB⟩ :=
      exists_reduce (rows_le_cols_beside_identity hsquare) (hind.beside_identity hsquare)
    rw [if_neg fun h => det_ne_zero hsquare hind (Scalar.Exact.eq_iff.mp h), hB]
    dsimp only
    rw [if_pos (allFinite_eq_true _)]

/-- **A square matrix with `Independent` columns is inverted.** -/
theorem invertSquare_of_independent (hsquare : A.rows = A.cols) (hind : A.Independent A.rows) :
    ∃ R, A.invertSquare = (.success, R) ∧ R.rows = A.rows ∧ R.cols = A.rows ∧ A.Undoes R := by
  have h : A.invertSquare = (.success, A.invertSquare.2) :=
    Prod.ext (success_of_independent hsquare hind) rfl
  exact ⟨_, h, undoes_of_invertSquare hsquare h⟩

end FluxBalance.DenseMatrix
