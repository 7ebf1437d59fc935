import FluxBalance.Proofs.DenseMatrix.TwoSided

/-!
# Outcomes of inversion

An attempt at inversion looks at the determinant before it eliminates, and in exact arithmetic this
is the determinant of the entries. Hence the outcome says what kind of matrix there was, and
elimination never meets a column of zeros: it would have to belong to a matrix that has been refused
already.

## Main definitions and results

* `outcomes_of_tryInvert`: the outcome of `tryInvert` by the shape and the determinant of the
  matrix.
-/

namespace FluxBalance.DenseMatrix

variable {α : Type} [Scalar α] [Scalar.Exact α] {A : DenseMatrix α} {n : Nat}

/-- A matrix with one entry is inverted unless the entry is zero. -/
private theorem outcome_of_one (h : A.rows = 1) :
    A.entry 0 0 = 0 ∧ A.invertSquare.1 = .singularZeroValue ∨
      A.entry 0 0 ≠ 0 ∧ A.invertSquare.1 = .success := by
  unfold invertSquare
  dsimp only
  rw [if_neg (by omega), allFinite_eq_true, if_neg (by simp), if_pos h]
  split
  · rename_i hzero
    exact .inl ⟨Scalar.Exact.eq_iff.mp hzero, rfl⟩
  · rename_i hentry
    exact .inr ⟨fun hzero => hentry (Scalar.Exact.eq_iff.mpr hzero), rfl⟩

/-- A larger matrix is inverted unless its determinant is zero. -/
private theorem outcome_of_two_le (hrows : A.rows = n) (hcols : A.cols = n) (hn : 2 ≤ n) :
    ¬IsUnit (A.toMatrix n) ∧ A.invertSquare.1 = .determinantZero ∨
      IsUnit (A.toMatrix n) ∧ A.invertSquare.1 = .success := by
  have hunit : IsUnit (A.toMatrix n) ↔ A.det ≠ 0 := by
    rw [Matrix.isUnit_iff_isUnit_det, isUnit_iff_ne_zero, det_eq_det_toMatrix hrows hcols]
  by_cases hdet : A.det = 0
  · refine .inl ⟨fun h => hunit.mp h hdet, ?_⟩
    unfold invertSquare
    dsimp only
    rw [if_neg (by omega), allFinite_eq_true, if_neg (by simp), if_neg (by omega),
      if_pos (Scalar.Exact.eq_iff.mpr hdet)]
  · exact .inr ⟨hunit.mpr hdet, (success_iff_isUnit hrows hcols).mpr (hunit.mpr hdet)⟩

/-- **The outcome says what kind of matrix there was.** In exact arithmetic the attempt at inverting
a square matrix succeeds exactly if the matrix is invertible; it finds a zero value exactly if the
matrix has a single entry, which is zero; it finds the determinant zero exactly if the matrix is
larger and singular; and it never meets a column of zeros on the way. -/
theorem outcomes_of_tryInvert (hrows : A.rows = n) (hcols : A.cols = n) (hn : 1 ≤ n) :
    ∃ outcome B, A.tryInvert = .ok (outcome, B) ∧
      (outcome = .success ↔ IsUnit (A.toMatrix n)) ∧
      (outcome = .singularZeroValue ↔ n = 1 ∧ A.entry 0 0 = 0) ∧
      (outcome = .determinantZero ↔ 2 ≤ n ∧ ¬IsUnit (A.toMatrix n)) ∧
      outcome ≠ .zeroDuringElimination := by
  have hsquare : A.tryInvert = .ok (A.invertSquare.1, A.invertSquare.2) :=
    if_pos (beq_iff_eq.mpr (hrows.trans hcols.symm))
  refine ⟨_, _, hsquare, success_iff_isUnit hrows hcols, ?_⟩
  rcases Nat.lt_or_eq_of_le hn with hlarge | hone
  · rcases outcome_of_two_le hrows hcols hlarge with ⟨hsingular, h⟩ | ⟨hunit, h⟩ <;> rw [h]
    · exact ⟨by simp; omega, by simp [hsingular]; omega, nofun⟩
    · exact ⟨by simp; omega, by simp [hunit], nofun⟩
  · rcases outcome_of_one (hrows.trans hone.symm) with ⟨hzero, h⟩ | ⟨hentry, h⟩ <;> rw [h]
    · exact ⟨by simp [hzero, hone], by simp; omega, nofun⟩
    · exact ⟨by simp [hentry], by simp; omega, nofun⟩

/-- A matrix whose second row is twice its first one. -/
def rowsDependent : DenseMatrix Rat :=
  ofFn 2 2 fun i j => (#[#[1, 2], #[2, 4]].getD i #[]).getD j 0

/-- The matrix with dependent rows is found singular, and it is; the one whose rows have to be
exchanged is inverted, and it is invertible. -/
theorem outcomes_rowsDependent :
    rowsDependent.invertSquare.1 = .determinantZero ∧ ¬IsUnit (rowsDependent.toMatrix 2) ∧
      rowsExchanged.invertSquare.1 = .success ∧ IsUnit (rowsExchanged.toMatrix 3) := by
  obtain ⟨_, _, hsingular, -, -, hzero, -⟩ :=
    outcomes_of_tryInvert (A := rowsDependent) (n := 2) rfl rfl (by decide)
  obtain ⟨_, _, hinverted, hunit, -⟩ :=
    outcomes_of_tryInvert (A := rowsExchanged) (n := 3) rfl rfl (by decide)
  obtain ⟨rfl, rfl⟩ := Prod.mk.inj (Except.ok.inj hsingular)
  obtain ⟨rfl, rfl⟩ := Prod.mk.inj (Except.ok.inj hinverted)
  have hdependent : rowsDependent.invertSquare.1 = .determinantZero := by decide +kernel
  have hexchanged : rowsExchanged.invertSquare.1 = .success := by decide +kernel
  exact ⟨hdependent, (hzero.mp hdependent).2, hexchanged, hunit.mp hexchanged⟩

end FluxBalance.DenseMatrix
