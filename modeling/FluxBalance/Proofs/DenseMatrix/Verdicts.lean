import FluxBalance.Proofs.DenseMatrix.Determinant
import FluxBalance.Proofs.DenseMatrix.Contents

/-!
# When a matrix of doubles is found singular

Before a matrix with more than one row is eliminated its determinant is compared with zero. In exact
arithmetic that is a test for singular matrices. With doubles two roundings stand between the
determinant and the matrix: the pivots are rounded, so that a pivot of an invertible matrix may come
out as zero and one of a singular matrix may not; and of pivots other than zero the determinant is
the exponential of a sum of logarithms, which may be too small for a double although every pivot is
harmless. Both are part of the verdict. Where the pivots are those of the numbers that the entries
stand for, the first one drops out, and the verdict is right up to the second, at whatever power of
two the matrix has been scaled.

## Main definitions and results

* `pivots`, `HasZeroPivot`, `Underflows`: the two ways in which a determinant comes out as zero;
* `Unrounded`: the pivots are those of the `values` of the entries;
* `verdict_of_tryInvert`: what it says of a matrix of doubles that its determinant is found zero.
-/

namespace FluxBalance.DenseMatrix

/-! ### Pivots in exact arithmetic -/

section

variable {α : Type} [Scalar α] {A : DenseMatrix α} {n : Nat}

/-- The pivots of the whole elimination. -/
def pivots (A : DenseMatrix α) : List α := (A.eliminate false 0 A.rows).1

/-- Some pivot is a zero. -/
def HasZeroPivot (A : DenseMatrix α) : Prop := ∃ p ∈ A.pivots, Scalar.eq p 0 = true

/-- In exact arithmetic the matrix is singular exactly if some pivot is zero. -/
private theorem det_toMatrix_eq_zero_iff [Scalar.Exact α] (hrows : A.rows = n)
    (hcols : A.cols = n) : (A.toMatrix n).det = 0 ↔ (0 : α) ∈ A.pivots := by
  have hdet := signed_det_eq (k := 0) (m := n) false hrows hcols (Nat.zero_add n)
    fun j hj => absurd hj (by omega)
  rw [Finset.range_zero, Finset.prod_empty, one_mul] at hdet
  have hsigned (odd : Bool) (x : α) : signed odd x = 0 ↔ x = 0 := by
    cases odd <;> simp [signed]
  rw [pivots, hrows, ← List.prod_eq_zero_iff, ← hsigned false, hdet, hsigned]

/-- The verdict on a larger matrix of finite entries is the test of the determinant, and the matrix
is left alone. -/
private theorem determinantZero_iff (hrows : 2 ≤ A.rows) (hfinite : A.Finite) :
    (A.invertSquare.1 = .determinantZero ↔ Scalar.eq A.det 0 = true) ∧
      (A.invertSquare.1 = .determinantZero → A.invertSquare.2 = A) := by
  unfold invertSquare
  dsimp only
  rw [if_neg (by omega), allFinite_iff.mpr hfinite, if_neg (by simp), if_neg (by omega)]
  split
  · rename_i hdet
    exact ⟨iff_of_true rfl hdet, fun _ => rfl⟩
  rename_i hdet
  split
  · exact ⟨iff_of_false nofun hdet, nofun⟩
  split
  · exact ⟨iff_of_false nofun hdet, nofun⟩
  · exact ⟨iff_of_false nofun hdet, nofun⟩

end

/-! ### Pivots of doubles -/

variable {A : DenseMatrix Float} {n : Nat}

/-- The numbers that the entries stand for. -/
def values (A : DenseMatrix Float) : DenseMatrix Rat :=
  ofFn A.rows A.cols fun i j => (Scalar.toRat? (A.entry i j)).getD 0

/-- The `pivots` stand for those of the numbers that the entries stand for. -/
def Unrounded (A : DenseMatrix Float) : Prop :=
  A.pivots.map Scalar.toRat? = A.values.pivots.map some

/-- No pivot is a zero, and yet the exponential of the sum of their logarithms is. -/
def Underflows (A : DenseMatrix Float) : Prop :=
  ¬A.HasZeroPivot ∧
    Scalar.eq (A.pivots.foldl (fun (total p : Float) => total + p.abs.log) 0.0).exp 0 = true

/-- The determinant is zero if a pivot is, or else if the exponential `Underflows`. -/
private theorem det_eq_zero_iff (hrows : A.rows ≠ 0) :
    Scalar.eq A.det Zero.zero = true ↔ A.HasZeroPivot ∨ A.Underflows := by
  have hany : A.pivots.any (· == 0) = true ↔ A.HasZeroPivot := List.any_eq_true
  have hdet : A.det = determinantOfDoubles (A.eliminate false 0 A.rows).2 A.pivots := if_neg hrows
  rw [hdet, determinantOfDoubles]
  split
  · rename_i hzero
    exact iff_of_true (by decide +kernel) (.inl (hany.mp hzero))
  · rename_i hzero
    rw [hany] at hzero
    rw [or_iff_right hzero, Underflows, and_iff_right hzero]
    dsimp only
    split
    · exact Doubles.neg_eq_zero_iff
    · rfl

/-- Without rounding a pivot is zero exactly if the matrix is singular. -/
private theorem Unrounded.hasZeroPivot_iff (h : A.Unrounded) (hrows : A.rows = n)
    (hcols : A.cols = n) : A.HasZeroPivot ↔ (A.values.toMatrix n).det = 0 := by
  have hring : (Scalar.Exact.field : Field Rat).toCommRing = Rat.commRing := CommRing.ext rfl rfl
  have hdet := det_toMatrix_eq_zero_iff (A := A.values) hrows hcols
  rw [hring] at hdet
  rw [hdet]
  have hmem : some 0 ∈ A.pivots.map Scalar.toRat? ↔ some 0 ∈ A.values.pivots.map some := by
    rw [show A.pivots.map Scalar.toRat? = _ from h]
  calc A.HasZeroPivot ↔ ∃ p ∈ A.pivots, Scalar.toRat? p = some 0 :=
        exists_congr fun p => and_congr_right fun _ => Doubles.eq_zero_iff_toRat?
    _ ↔ some 0 ∈ A.pivots.map Scalar.toRat? := List.mem_map.symm
    _ ↔ some 0 ∈ A.values.pivots.map some := hmem
    _ ↔ (0 : Rat) ∈ A.values.pivots := by simp

/-- **What a determinant of zero says.** On a matrix of finite doubles with more than one row the
attempt at inversion returns, and if it has found the determinant zero the matrix is as before. It
finds it zero exactly if some pivot has come out as zero or the exponential `Underflows`. So where
the pivots are not rounded, and whichever power of two the entries have been scaled by, it does
exactly if the matrix is singular or the exponential underflows. -/
theorem verdict_of_tryInvert (hrows : A.rows = n) (hcols : A.cols = n) (hn : 2 ≤ n)
    (hfinite : A.Finite) :
    ∃ outcome B, A.tryInvert = .ok (outcome, B) ∧ (outcome = .determinantZero → B = A) ∧
      (outcome = .determinantZero ↔ A.HasZeroPivot ∨ A.Underflows) ∧
      (A.Unrounded → ∀ (k : Int) (M : Matrix (Fin n) (Fin n) Rat),
        A.values.toMatrix n = (2 : Rat) ^ k • M →
        (outcome = .determinantZero ↔ M.det = 0 ∨ A.Underflows)) := by
  have htry : A.tryInvert = .ok (A.invertSquare.1, A.invertSquare.2) :=
    if_pos (beq_iff_eq.mpr (hrows.trans hcols.symm))
  obtain ⟨hverdict, hkept⟩ := determinantZero_iff (by omega) hfinite
  have hverdict := hverdict.trans (det_eq_zero_iff (by omega))
  refine ⟨_, _, htry, hkept, hverdict, fun hunrounded k M hscaled => hverdict.trans ?_⟩
  have hpow : ((2 : Rat) ^ k) ^ n ≠ 0 := pow_ne_zero n (zpow_ne_zero k two_ne_zero)
  rw [hunrounded.hasZeroPivot_iff hrows hcols, hscaled, Matrix.det_smul, Fintype.card_fin,
    mul_eq_zero, or_iff_right hpow]

/-- The `identity` of two rows, scaled by `2 ^ -700`. -/
def identitySmall : DenseMatrix Float := (identity 2).scale (Float.ofBits 0x1430000000000000)

/-- A matrix of doubles whose second row is twice its first one. -/
def doubledRow : DenseMatrix Float :=
  ofFn 2 2 fun i j => (#[#[2, 1], #[4, 2]].getD i #[]).getD j 0

/-- The matrix with a doubled row is found singular, and it is. Whether the scaled identity is found
singular depends on the exponential alone. -/
theorem verdict_doubledRow :
    (∃ B, doubledRow.tryInvert = .ok (.determinantZero, B) ∧ B = doubledRow) ∧
      ∃ outcome B, identitySmall.tryInvert = .ok (outcome, B) ∧
        (outcome = .determinantZero ↔ identitySmall.Underflows) := by
  have hfinite : doubledRow.Finite ∧ identitySmall.Finite := by
    rw [← allFinite_iff, ← allFinite_iff]
    decide +kernel
  have hunrounded : doubledRow.Unrounded ∧ identitySmall.Unrounded := by
    unfold Unrounded
    decide +kernel
  have hscaled : identitySmall.values.toMatrix 2 = (2 : Rat) ^ (-700 : Int) • 1 := by
    ext i j
    rw [Matrix.smul_apply, toMatrix_apply]
    revert i j
    decide +kernel
  obtain ⟨outcome, B, h, hkept, -, hverdict⟩ :=
    verdict_of_tryInvert (A := doubledRow) (n := 2) rfl rfl le_rfl hfinite.1
  obtain ⟨outcome', B', h', -, -, hverdict'⟩ :=
    verdict_of_tryInvert (A := identitySmall) (n := 2) rfl rfl le_rfl hfinite.2
  refine ⟨?_, outcome', B', h', ?_⟩
  · have hdet : (doubledRow.values.toMatrix 2).det = 0 := by
      rw [Matrix.det_fin_two]
      decide +kernel
    obtain rfl := (hverdict hunrounded.1 0 _ (by rw [zpow_zero, one_smul])).mpr (.inl hdet)
    exact ⟨B, h, hkept rfl⟩
  · rw [hverdict' hunrounded.2 _ _ hscaled, Matrix.det_one, or_iff_right one_ne_zero]

/-- A matrix of doubles whose second pivot is rounded to zero. -/
def roundedThird : DenseMatrix Float :=
  ofFn 2 2 fun i j => (#[#[3, 1], #[1, 1 / 3]].getD i #[]).getD j 0

/-- A matrix may be found singular although its exact determinant is not zero. -/
theorem exists_invertible_found_singular : ∃ A : DenseMatrix Float, A.rows = 2 ∧ A.cols = 2 ∧
    A.Finite ∧ A.tryInvert = .ok (.determinantZero, A) ∧ (A.values.toMatrix 2).det ≠ 0 := by
  have hfinite : roundedThird.Finite := by
    rw [← allFinite_iff]
    decide +kernel
  obtain ⟨hverdict, hkept⟩ := determinantZero_iff (A := roundedThird) le_rfl hfinite
  have hzero : roundedThird.invertSquare.1 = .determinantZero := by decide +kernel
  refine ⟨roundedThird, rfl, rfl, hfinite, congrArg Except.ok (Prod.ext hzero (hkept hzero)), ?_⟩
  rw [Matrix.det_fin_two]
  decide +kernel

end FluxBalance.DenseMatrix
