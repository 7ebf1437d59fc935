import FluxBalance.DenseMatrix.Inversion
import FluxBalance.Proofs.DenseMatrix.Entries

/-!
# Rows of zeros

A matrix with a row of zeros is not inverted. Elimination leaves such a row alone: it is not taken
as a pivot row, since its entry in the pivot column is zero, and nothing is added to it when the
column is cleared. So with each column the row, if it is exchanged at all, moves below the pivot
row, until there is no place left for it. Only the tests for zero are used, so this holds with
rounding as well.

## Main definitions and results

* `ZeroRow`, `zeroRow_of_reduceColumn`: a row of zeros moves below the pivot row;
* `invertSquare_ne_success`: a square matrix with a `ZeroRow` is not inverted.
-/

namespace FluxBalance.DenseMatrix

variable {α : Type} [Scalar α] {A B : DenseMatrix α}

/-! ### Shapes -/

@[simp] theorem rows_rowSwap (r1 r2 : Nat) : (A.rowSwap r1 r2).rows = A.rows := by
  unfold rowSwap
  split <;> rfl

@[simp] theorem cols_rowSwap (r1 r2 : Nat) : (A.rowSwap r1 r2).cols = A.cols := by
  unfold rowSwap
  split <;> rfl

/-! ### Pivot rows -/

/-- The better of two rows for the pivot of column `k`; of equally good ones the first. -/
def betterRow (A : DenseMatrix α) (k best r : Nat) : Nat :=
  if isBetterPivot (A.entry best k) (A.entry r k) then r else best

omit [Scalar α] in
/-- The rows below the pivot row are those with a greater index. -/
theorem mem_drop_range {n k i : Nat} : i ∈ (List.range n).drop (k + 1) ↔ k < i ∧ i < n := by
  rw [List.range_eq_range', List.drop_range', List.mem_range'_1]
  omega

/-- The search for a pivot is a fold of `betterRow` over the rows below. -/
theorem pivotRow_eq_foldl (A : DenseMatrix α) (k : Nat) :
    A.pivotRow k = ((List.range A.rows).drop (k + 1)).foldl (A.betterRow k) k := rfl

/-- One of the rows that are compared is taken. -/
private theorem foldl_betterRow {P : Nat → Prop} {k : Nat} :
    ∀ (rs : List Nat) {best : Nat}, P best → (∀ r ∈ rs, P r) →
      P (rs.foldl (A.betterRow k) best)
  | [], _, hbest, _ => hbest
  | r :: rs, best, hbest, hrs => by
    obtain ⟨hr, hrs⟩ := List.forall_mem_cons.mp hrs
    rw [List.foldl_cons]
    refine foldl_betterRow rs ?_ hrs
    unfold betterRow
    split
    · exact hr
    · exact hbest

/-- The row taken for the pivot of a column is not above the diagonal. -/
theorem le_pivotRow_and_lt {k : Nat} (hk : k < A.rows) :
    k ≤ A.pivotRow k ∧ A.pivotRow k < A.rows := by
  rw [pivotRow_eq_foldl]
  refine foldl_betterRow (P := fun r => k ≤ r ∧ r < A.rows) _ ⟨Nat.le_refl k, hk⟩
    fun r hr => ?_
  obtain ⟨hkr, hr⟩ := mem_drop_range.mp hr
  exact ⟨Nat.le_of_lt hkr, hr⟩

/-! ### Steps of the elimination -/

/-- The entries of a row in the first `n` columns are zeros. -/
def ZeroRow (A : DenseMatrix α) (n q : Nat) : Prop :=
  q < A.rows ∧ ∀ j < n, Scalar.eq (A.entry q j) 0 = true

/-- A step of clearing column `k`: row `k` times what row `r` holds there is taken from row `r`. -/
def clearRow (k : Nat) (B : DenseMatrix α) (r : Nat) : DenseMatrix α :=
  if r = k ∨ Scalar.eq (B.entry r k) 0 then B else B.scaledRowAdd k r (-B.entry r k)

/-- Clearing a column is a fold of `clearRow` over all rows. -/
theorem clearColumn_eq_foldl (A : DenseMatrix α) (k : Nat) :
    A.clearColumn k = (List.range A.rows).foldl (clearRow k) A := rfl

/-- Clearing rows leaves the shape and every row alone that holds a zero in the column. -/
private theorem foldl_clearRow {k q : Nat} (hk : k < A.cols) (hq : q < A.rows)
    (hzero : Scalar.eq (A.entry q k) 0 = true) :
    ∀ {rs : List Nat} {B : DenseMatrix α}, B.rows = A.rows → B.cols = A.cols →
      (∀ j < A.cols, B.entry q j = A.entry q j) →
      (rs.foldl (clearRow k) B).rows = A.rows ∧ (rs.foldl (clearRow k) B).cols = A.cols ∧
        ∀ j < A.cols, (rs.foldl (clearRow k) B).entry q j = A.entry q j
  | [], _, hrows, hcols, hB => ⟨hrows, hcols, hB⟩
  | r :: rs, B, hrows, hcols, hB => by
    rw [List.foldl_cons, clearRow]
    split
    · exact foldl_clearRow hk hq hzero hrows hcols hB
    · rename_i hclear
      rw [not_or] at hclear
      have hne : r ≠ q := by
        rintro rfl
        rw [hB k hk] at hclear
        exact hclear.2 hzero
      refine foldl_clearRow hk hq hzero hrows hcols fun j hj => ?_
      rw [entry_scaledRowAdd B _ (hrows ▸ hq) (hcols ▸ hj), if_neg hne, hB j hj]

/-- Clearing a column leaves alone the rows that have a zero in it. -/
private theorem clearColumn_spec {k q : Nat} (hk : k < A.cols) (hq : q < A.rows)
    (hzero : Scalar.eq (A.entry q k) 0 = true) :
    (A.clearColumn k).rows = A.rows ∧ (A.clearColumn k).cols = A.cols ∧
      ∀ j < A.cols, (A.clearColumn k).entry q j = A.entry q j := by
  rw [clearColumn_eq_foldl]
  exact foldl_clearRow hk hq hzero rfl rfl fun _ _ => rfl

/-- **A row of zeros moves below the pivot row.** -/
theorem zeroRow_of_reduceColumn {n k q : Nat} (hn : n ≤ A.cols) (hk : k < n) (hkq : k ≤ q)
    (hzero : ZeroRow A n q) (h : A.reduceColumn k = some B) :
    B.rows = A.rows ∧ B.cols = A.cols ∧ ∃ q', k < q' ∧ ZeroRow B n q' := by
  obtain ⟨hq, hentries⟩ := hzero
  obtain ⟨hkp, hp⟩ := le_pivotRow_and_lt (A := A) (Nat.lt_of_le_of_lt hkq hq)
  unfold reduceColumn at h
  dsimp only at h
  split at h
  · cases h
  · rename_i hpivot
    cases h
    have hqp : q ≠ A.pivotRow k := by
      intro heq
      rw [← heq] at hpivot
      exact hpivot (hentries k hk)
    -- Where the row is after the exchange.
    obtain ⟨q', hkq', hq', hentry⟩ : ∃ q', k < q' ∧ q' < A.rows ∧
        ∀ j < A.cols, (A.rowSwap k (A.pivotRow k)).entry q' j = A.entry q j := by
      by_cases hqk : q = k
      · refine ⟨A.pivotRow k, by omega, hp, fun j hj => ?_⟩
        rw [entry_rowSwap A hp hj, if_neg (by omega), if_pos rfl, hqk]
      · refine ⟨q, by omega, hq, fun j hj => ?_⟩
        rw [entry_rowSwap A hq hj, if_neg hqk, if_neg hqp]
    generalize hS : A.rowSwap k (A.pivotRow k) = S at hentry ⊢
    have hrows : S.rows = A.rows := by rw [← hS, rows_rowSwap]
    have hcols : S.cols = A.cols := by rw [← hS, cols_rowSwap]
    have hscaled : ∀ j < A.cols, (S.rowScale k (1 / S.entry k k)).entry q' j = A.entry q j := by
      intro j hj
      rw [entry_rowScale S _ (hrows ▸ hq') (hcols ▸ hj), if_neg (by omega), hentry j hj]
    obtain ⟨hrows', hcols', hclear⟩ :=
      clearColumn_spec (A := S.rowScale k (1 / S.entry k k)) (k := k) (hcols ▸ by omega)
        (hrows ▸ hq') (by
          rw [hscaled k (by omega)]
          exact hentries k hk)
    refine ⟨hrows'.trans hrows, hcols'.trans hcols, q', hkq', ?_, fun j hj => ?_⟩
    · rw [hrows']
      exact hrows ▸ hq'
    · rw [hclear j (hcols ▸ by omega), hscaled j (by omega)]
      exact hentries j hj

/-! ### The attempt at inversion -/

/-- Elimination fails on a matrix with a row of zeros. -/
private theorem reduce_eq_none {q : Nat} (hcols : A.rows ≤ A.cols) (hzero : ZeroRow A A.rows q) :
    A.reduce = none := by
  -- After `m` columns the row of zeros is below the first `m` rows.
  have key : ∀ m ≤ A.rows, ∀ C, (List.range m).foldlM reduceColumn A = some C →
      C.rows = A.rows ∧ C.cols = A.cols ∧ ∃ q', m ≤ q' ∧ ZeroRow C A.rows q' := by
    intro m
    induction m with
    | zero =>
      rintro - C ⟨⟩
      exact ⟨rfl, rfl, q, Nat.zero_le q, hzero⟩
    | succ m ih =>
      intro hm C hC
      rw [List.range_succ, List.foldlM_append] at hC
      obtain ⟨D, hD, hC⟩ := Option.bind_eq_some_iff.mp hC
      obtain ⟨hrows, hcols', q', hq', hzero'⟩ := ih (by omega) D hD
      obtain ⟨C', hC', hnil⟩ := Option.bind_eq_some_iff.mp hC
      obtain rfl : C' = C := Option.some.inj hnil
      obtain ⟨hrows'', hcols'', q'', hq'', hzero''⟩ :=
        zeroRow_of_reduceColumn (by omega) (by omega) hq' hzero' hC'
      exact ⟨hrows''.trans hrows, hcols''.trans hcols', q'', hq'', hzero''⟩
  cases hred : A.reduce with
  | none => rfl
  | some C =>
    obtain ⟨hrows, -, q', hq', hlt, -⟩ := key A.rows (Nat.le_refl _) C hred
    omega

/-- **A square matrix with a row of zeros is not inverted.** -/
theorem invertSquare_ne_success {q : Nat} (hsquare : A.rows = A.cols) (hzero : ZeroRow A A.rows q) :
    A.invertSquare.1 ≠ .success := by
  obtain ⟨hq, hentries⟩ := hzero
  have hbeside : (A.beside (identity A.rows)).reduce = none := by
    refine reduce_eq_none (q := q) ?_ ⟨hq, fun j hj => ?_⟩
    · show A.rows ≤ A.cols + A.rows
      omega
    · rw [entry_beside_left A _ hq (hsquare ▸ hj)]
      exact hentries j hj
  unfold invertSquare
  dsimp only
  rw [if_neg (by omega)]
  split
  · exact nofun
  split
  · rename_i hone
    obtain rfl : q = 0 := by omega
    rw [if_pos (hentries 0 hq)]
    exact nofun
  split
  · exact nofun
  · rw [hbeside]
    exact nofun

end FluxBalance.DenseMatrix
