import FluxBalance.Proofs.DenseMatrix.Entries
import FluxBalance.Proofs.Scalar.Reciprocals
import FluxBalance.DenseMatrix.Inversion

/-!
# What inversion leaves in a matrix

An attempt at inversion that fails leaves the matrix alone, whichever way it fails. One that
succeeds has found a matrix of finite entries, since the result of an elimination is inspected
before it replaces the matrix. A matrix with a single entry is not eliminated: the entry is replaced
by its reciprocal, and nothing looks at that. So a success may leave an infinite entry, and by what
is known of reciprocals it does exactly if the entry is a number other than zero and at most
`2 ^ -1024`.

## Main definitions and results

* `Attempted`: an attempt has failed and left the matrix alone, or it has left a `Finite` matrix;
* `Overflows`: the single entry of the matrix has a reciprocal that is beyond the doubles;
* `contents_of_tryInvert`: an attempt leaves a `Finite` matrix or the given one, unless that one
  `Overflows`.
-/

namespace FluxBalance.DenseMatrix

variable {α : Type} [Scalar α]

/-! ### Finite entries -/

theorem mem_toList_iff {A : DenseMatrix α} {x : α} :
    x ∈ A.toList ↔ ∃ i < A.rows, ∃ j < A.cols, A.entry i j = x := by
  constructor
  · intro h
    obtain ⟨row, hrow, hx⟩ := List.mem_flatten.mp h
    obtain ⟨v, hv, rfl⟩ := List.mem_map.mp hrow
    obtain ⟨i, hi, rfl⟩ := Vector.mem_iff_getElem.mp (Vector.mem_toList_iff.mp hv)
    obtain ⟨j, hj, rfl⟩ := Vector.mem_iff_getElem.mp (Vector.mem_toList_iff.mp hx)
    exact ⟨i, hi, j, hj, dif_pos ⟨hi, hj⟩⟩
  · rintro ⟨i, hi, j, hj, rfl⟩
    exact entry_mem_toList A hi hj

/-- All entries are finite. -/
def Finite (A : DenseMatrix α) : Prop :=
  ∀ i < A.rows, ∀ j < A.cols, Scalar.isFinite (A.entry i j) = true

/-- The inspection `allFinite` is the test for `Finite` matrices. -/
theorem allFinite_iff {A : DenseMatrix α} : A.allFinite = true ↔ A.Finite := by
  unfold allFinite
  rw [List.all_eq_true]
  constructor
  · exact fun h i hi j hj => h _ (entry_mem_toList A hi hj)
  · intro h x hx
    obtain ⟨i, hi, j, hj, rfl⟩ := mem_toList_iff.mp hx
    exact h i hi j hj

/-! ### Routes through an attempt -/

/-- An attempt has failed and left the matrix alone, or it has left finite entries. -/
inductive Attempted (A : DenseMatrix α) : InversionOutcome × DenseMatrix α → Prop
  | failed {outcome : InversionOutcome} (h : outcome ≠ .success) : Attempted A (outcome, A)
  | inverted {B : DenseMatrix α} (hshape : B.shape = (A.rows, A.rows)) (h : B.Finite) :
    Attempted A (.success, B)

/-- The single entry of a matrix is inverted without another look if it is finite and not zero. -/
private theorem invertSquare_single {A : DenseMatrix α} (hrows : A.rows = 1) (hfinite : A.Finite)
    (hne : Scalar.eq (A.entry 0 0) 0 = false) :
    A.invertSquare = (.success, A.replace 0 0 (1 / A.entry 0 0)) := by
  unfold invertSquare
  dsimp only
  rw [if_neg (by omega), allFinite_iff.mpr hfinite, if_neg (by simp), if_pos hrows, hne,
    if_neg (by simp)]

/-- A matrix with a single entry is `Finite` if this entry is. -/
private theorem finite_single {A : DenseMatrix α} (hrows : A.rows = 1) (hcols : A.cols = 1) :
    A.Finite ↔ Scalar.isFinite (A.entry 0 0) = true := by
  constructor
  · exact fun h => h 0 (by omega) 0 (by omega)
  · intro h i hi j hj
    obtain rfl : i = 0 := by omega
    obtain rfl : j = 0 := by omega
    exact h

private theorem entry_replace_single {A : DenseMatrix α} (hrows : A.rows = 1) (hcols : A.cols = 1)
    (x : α) : (A.replace 0 0 x).entry 0 0 = x := by
  rw [entry_replace A x (by omega) (by omega), if_pos ⟨rfl, rfl⟩]

/-- After the single entry has been replaced, the new one decides whether the matrix is `Finite`. -/
private theorem finite_replace_single {A : DenseMatrix α} (hrows : A.rows = 1) (hcols : A.cols = 1)
    (x : α) : (A.replace 0 0 x).Finite ↔ Scalar.isFinite x = true := by
  rw [finite_single (A := A.replace 0 0 x) hrows hcols, entry_replace_single hrows hcols]

/-- Every attempt ends in one of these ways unless a single entry has no finite reciprocal. -/
private theorem attempted_invertSquare {A : DenseMatrix α} (hsquare : A.rows = A.cols)
    (hsingle : A.rows = 1 → A.Finite → Scalar.eq (A.entry 0 0) 0 = false →
      Scalar.isFinite (1 / A.entry 0 0) = true) : A.Attempted A.invertSquare := by
  unfold invertSquare
  dsimp only
  split
  · rename_i hempty
    exact .inverted (Prod.ext rfl hsquare.symm) fun i hi => absurd hi (by omega)
  split
  · exact .failed nofun
  rename_i hfinite
  split
  · rename_i hrows
    split
    · exact .failed nofun
    · rename_i hne
      have hcols : A.cols = 1 := hsquare.symm.trans hrows
      refine .inverted (Prod.ext rfl hsquare.symm) ((finite_replace_single hrows hcols _).mpr ?_)
      exact hsingle hrows (allFinite_iff.mp (by simpa using hfinite)) (by simpa using hne)
  split
  · exact .failed nofun
  split
  · exact .failed nofun
  split
  · rename_i hresult
    exact .inverted rfl (allFinite_iff.mp hresult)
  · exact .failed nofun

/-! ### Matrices of doubles -/

/-- The matrix has a single entry, and this is a number other than zero whose reciprocal is beyond
the largest double. -/
def Overflows (A : DenseMatrix Float) : Prop :=
  A.rows = 1 ∧ ∃ q, Scalar.toRat? (A.entry 0 0) = some q ∧ q ≠ 0 ∧ |q| ≤ 2 ^ (-1024 : Int)

/-- An attempt at a matrix that `Overflows` succeeds, and an infinite entry is left. -/
private theorem Overflows.invertSquare_eq {A : DenseMatrix Float} (h : A.Overflows)
    (hcols : A.cols = 1) : A.invertSquare = (.success, A.replace 0 0 (1 / A.entry 0 0)) ∧
      Scalar.isFinite (1 / A.entry 0 0) = false := by
  obtain ⟨hrows, q, hq, hne, hle⟩ := h
  have hzero : Scalar.eq (A.entry 0 0) 0 = false := by
    rw [Bool.eq_false_iff, ne_eq, Doubles.eq_zero_iff_toRat?, hq]
    exact fun h => hne (Option.some.inj h)
  have hfinite : A.Finite := (finite_single hrows hcols).mpr (Doubles.isFinite_iff.mpr ⟨q, hq⟩)
  refine ⟨invertSquare_single hrows hfinite hzero, ?_⟩
  rw [Bool.eq_false_iff, ne_eq, Doubles.isFinite_one_div_iff hq hne]
  exact hle.not_gt

/-- The reciprocal of a single entry that does not overflow is finite. -/
private theorem isFinite_one_div_of_not_overflows {A : DenseMatrix Float} (h : ¬A.Overflows)
    (hrows : A.rows = 1) (hcols : A.cols = 1) (hfinite : A.Finite)
    (hne : Scalar.eq (A.entry 0 0) 0 = false) : Scalar.isFinite (1 / A.entry 0 0) = true := by
  obtain ⟨q, hq⟩ := Doubles.isFinite_iff.mp ((finite_single hrows hcols).mp hfinite)
  have hq0 : q ≠ 0 := by
    rintro rfl
    rw [Doubles.eq_zero_iff_toRat?.mpr hq] at hne
    cases hne
  rw [Doubles.isFinite_one_div_iff hq hq0, ← not_le]
  exact fun hle => h ⟨hrows, q, hq, hq0, hle⟩

/-- **Finite or unchanged, but for one overflow.** Whatever the entries of a square matrix of
doubles are, exactly one of the following holds after an attempt at inverting it, unless the matrix
`Overflows`: the attempt has succeeded and all entries are finite, or it has failed and the matrix
is as before. If the matrix overflows, the attempt succeeds and leaves an infinite entry. -/
theorem contents_of_tryInvert {A : DenseMatrix Float} (hsquare : A.rows = A.cols) :
    ∃ outcome B, A.tryInvert = .ok (outcome, B) ∧ B.shape = A.shape ∧
      (Xor (outcome = .success ∧ B.Finite) (outcome ≠ .success ∧ B = A) ↔ ¬A.Overflows) ∧
      (A.Overflows → outcome = .success ∧ Scalar.isFinite (B.entry 0 0) = false) := by
  have htry : A.tryInvert = .ok A.invertSquare := if_pos (beq_iff_eq.mpr hsquare)
  by_cases hover : A.Overflows
  · have hcols : A.cols = 1 := hsquare.symm.trans hover.1
    obtain ⟨h, hinfinite⟩ := hover.invertSquare_eq hcols
    refine ⟨_, _, htry.trans (congrArg _ h), rfl, iff_of_false ?_ (not_not.mpr hover), fun _ =>
      ⟨rfl, ?_⟩⟩
    · rintro (⟨⟨-, hfinite⟩, -⟩ | ⟨⟨hne, -⟩, -⟩)
      · rw [finite_replace_single hover.1 hcols, hinfinite] at hfinite
        cases hfinite
      · exact hne rfl
    · rw [entry_replace_single hover.1 hcols, hinfinite]
  · have hends := attempted_invertSquare hsquare fun hrows =>
      isFinite_one_div_of_not_overflows hover hrows (hsquare.symm.trans hrows)
    rw [htry]
    cases h : A.invertSquare with
    | mk outcome B =>
      rw [h] at hends
      refine ⟨outcome, B, rfl, ?_⟩
      cases hends with
      | failed hne =>
        refine ⟨rfl, iff_of_true (.inr ⟨⟨hne, rfl⟩, fun hs => hne hs.1⟩) hover, fun ho =>
          absurd ho hover⟩
      | inverted hshape hfinite =>
        refine ⟨hshape.trans (Prod.ext rfl hsquare), iff_of_true
          (.inl ⟨⟨rfl, hfinite⟩, fun hf => hf.1 rfl⟩) hover, fun ho => absurd ho hover⟩

/-- The matrix whose only entry is the least positive double. -/
def leastPositive : DenseMatrix Float := ofFn 1 1 fun _ _ => Float.ofBits 1

/-- The matrix of the least positive double `Overflows`, so it is neither finite nor as before. -/
theorem contents_leastPositive : leastPositive.rows = leastPositive.cols ∧ leastPositive.Overflows ∧
    ∃ B, leastPositive.tryInvert = .ok (.success, B) ∧ Scalar.isFinite (B.entry 0 0) = false := by
  have hover : leastPositive.Overflows := by
    refine ⟨rfl, 2 ^ (-1074 : Int), by decide +kernel, by positivity, ?_⟩
    rw [abs_of_pos (by positivity)]
    exact zpow_le_zpow_right₀ one_le_two (by decide)
  obtain ⟨outcome, B, h, -, -, hinfinite⟩ := contents_of_tryInvert (A := leastPositive) rfl
  obtain ⟨rfl, hB⟩ := hinfinite hover
  exact ⟨rfl, hover, B, h, hB⟩

/-- An attempt may succeed although an entry of its result is not finite. -/
theorem exists_success_not_finite : ∃ A B : DenseMatrix Float, A.rows = A.cols ∧ A.Finite ∧
    A.tryInvert = .ok (.success, B) ∧ ¬B.Finite := by
  have hfinite : leastPositive.Finite :=
    (finite_single rfl rfl).mpr (by decide +kernel)
  have hzero : Scalar.eq (leastPositive.entry 0 0) 0 = false := by decide +kernel
  have h : leastPositive.tryInvert = .ok (.success, leastPositive.replace 0 0
      (1 / leastPositive.entry 0 0)) :=
    congrArg Except.ok (invertSquare_single rfl hfinite hzero)
  refine ⟨_, _, rfl, hfinite, h, ?_⟩
  rw [finite_replace_single rfl rfl, Bool.not_eq_true]
  decide +kernel

end FluxBalance.DenseMatrix
