import Mathlib.Algebra.BigOperators.Intervals
import Mathlib.Algebra.BigOperators.Ring.Finset
import Mathlib.Tactic.Ring
import FluxBalance.Proofs.DenseMatrix.Singular
import FluxBalance.Proofs.Scalar.Exact

/-!
# Elimination in exact arithmetic

Exchanging rows, scaling a row by a number other than zero and adding multiples of a row to the
other rows do not change the solutions of the homogeneous equations whose coefficients are the
entries of a matrix. So if the only solution is zero, elimination never meets a column of zeros:
from the columns before it, such a column would give a solution other than zero.

The main statement is that a column that is not a combination of the ones before it, which have been
brought into `Triangular` form, has a pivot other than zero.

## Main definitions and results

* `Solves`: numbers that solve the homogeneous equations of a matrix;
* `SharesRows`, `ClearedBy`: what adding multiples of a row to the others leaves;
* `Independent`: the first columns are independent, said of the numbers that `Solves` is about;
* `pivot_ne_zero_of_triangular`: an independent column has a pivot other than zero.
-/

namespace FluxBalance.DenseMatrix

variable {α : Type} [Scalar α] [Scalar.Exact α] {A B C : DenseMatrix α}

/-! ### Homogeneous equations -/

/-- A row of the matrix times a column of numbers. -/
def dot (A : DenseMatrix α) (i : Nat) (z : Nat → α) : α :=
  ∑ j ∈ Finset.range A.cols, A.entry i j * z j

/-- The entries of a product are rows times columns. -/
theorem entry_times_eq_dot (A B : DenseMatrix α) {i j : Nat} (hi : i < A.rows) (hj : j < B.cols) :
    (A.times B).entry i j = A.dot i fun k => B.entry k j := by
  rw [entry_times A B hi hj, Scalar.Exact.sum_eq_sum]
  rfl

/-- The numbers solve the homogeneous equations whose coefficients are the entries. -/
def Solves (A : DenseMatrix α) (z : Nat → α) : Prop := ∀ i < A.rows, A.dot i z = 0

/-- Every row of the second matrix is that of the first with a multiple of row `k` added. -/
structure ClearedBy (k : Nat) (g : Nat → α) (A C : DenseMatrix α) : Prop where
  rows : C.rows = A.rows
  cols : C.cols = A.cols
  entry : ∀ i < A.rows, ∀ j < A.cols, C.entry i j = A.entry i j + g i * A.entry k j

theorem solves_rowSwap {r1 r2 : Nat} (h1 : r1 < A.rows) (h2 : r2 < A.rows) {z : Nat → α} :
    (A.rowSwap r1 r2).Solves z ↔ A.Solves z := by
  have hdot : ∀ i < A.rows, (A.rowSwap r1 r2).dot i z =
      A.dot (if i = r1 then r2 else if i = r2 then r1 else i) z := by
    intro i hi
    unfold dot
    rw [cols_rowSwap]
    refine Finset.sum_congr rfl fun j hj => ?_
    rw [entry_rowSwap A hi (Finset.mem_range.mp hj)]
  constructor
  · intro h i hi
    have hswapped : (if i = r1 then r2 else if i = r2 then r1 else i) < A.rows := by
      split
      · exact h2
      · split
        · exact h1
        · exact hi
    have hi' := h _ (by rw [rows_rowSwap]; exact hswapped)
    rw [hdot _ hswapped] at hi'
    -- Exchanging the rows twice leads back to the row.
    by_cases hir1 : i = r1
    · simp_all
    · by_cases hir2 : i = r2
      · simp_all
      · simp_all
  · intro h i hi
    rw [rows_rowSwap] at hi
    rw [hdot i hi]
    refine h _ ?_
    split
    · exact h2
    · split
      · exact h1
      · exact hi

/-- Scaling a row by a number other than zero keeps the solutions. -/
theorem solves_rowScale {r : Nat} {s : α} (hs : s ≠ 0) {z : Nat → α} :
    (A.rowScale r s).Solves z ↔ A.Solves z := by
  refine forall₂_congr fun i hi => ?_
  have hdot : (A.rowScale r s).dot i z = if r = i then A.dot i z * s else A.dot i z := by
    have hentry : ∀ j ∈ Finset.range A.cols, (A.rowScale r s).entry i j * z j =
        if r = i then A.entry i j * z j * s else A.entry i j * z j := by
      intro j hj
      rw [entry_rowScale A s hi (Finset.mem_range.mp hj)]
      split
      · ring
      · rfl
    unfold dot
    rw [show (A.rowScale r s).cols = A.cols from rfl, Finset.sum_congr rfl hentry]
    split
    · rw [Finset.sum_mul]
    · rfl
  rw [hdot]
  split
  · exact mul_eq_zero_iff_right hs
  · exact Iff.rfl

/-- Adding multiples of the pivot row to the others, `ClearedBy`, keeps the solutions. -/
theorem ClearedBy.solves_iff {k : Nat} {g : Nat → α} (h : ClearedBy k g A C) (hk : k < A.rows)
    (hg : g k = 0) {z : Nat → α} : C.Solves z ↔ A.Solves z := by
  have hdot : ∀ i < A.rows, C.dot i z = A.dot i z + g i * A.dot k z := by
    intro i hi
    unfold dot
    rw [h.cols, Finset.mul_sum, ← Finset.sum_add_distrib]
    refine Finset.sum_congr rfl fun j hj => ?_
    rw [h.entry i hi j (Finset.mem_range.mp hj)]
    ring
  constructor
  · intro hC
    have hrow : A.dot k z = 0 := by
      have := hC k (h.rows ▸ hk)
      rwa [hdot k hk, hg, zero_mul, add_zero] at this
    intro i hi
    have := hC i (h.rows ▸ hi)
    rwa [hdot i hi, hrow, mul_zero, add_zero] at this
  · intro hA i hi
    rw [h.rows] at hi
    rw [hdot i hi, hA i hi, hA k hk, mul_zero, add_zero]

/-! ### Clearing a column -/

/-- The matrix has the shape of `A`, and row `k` and the listed rows are those of `A`. -/
structure SharesRows (A : DenseMatrix α) (k : Nat) (rs : List Nat) (B : DenseMatrix α) : Prop where
  rows : B.rows = A.rows
  cols : B.cols = A.cols
  pivot : ∀ j < A.cols, B.entry k j = A.entry k j
  entry : ∀ r ∈ rs, ∀ j < A.cols, B.entry r j = A.entry r j

/-- The second matrix is the first with row `r` replaced by that of `A` with `g r` times row `k` of
`A` added. -/
structure AddsPivotRow (A : DenseMatrix α) (k : Nat) (g : Nat → α) (r : Nat)
    (B C : DenseMatrix α) : Prop where
  rows : C.rows = A.rows
  cols : C.cols = A.cols
  entry : ∀ i < A.rows, ∀ j < A.cols,
    C.entry i j = if i = r then A.entry r j + g r * A.entry k j else B.entry i j

/-- A row that is replaced is no longer shared; row `k` is, as nothing is added to it. -/
private theorem SharesRows.of_addsPivotRow {k r : Nat} {rs : List Nat} {g : Nat → α}
    (hk : k < A.rows) (hg : g k = 0) (hnodup : (r :: rs).Nodup) (hlt : ∀ q ∈ r :: rs, q < A.rows)
    (hB : SharesRows A k (r :: rs) B) (h : AddsPivotRow A k g r B C) : SharesRows A k rs C where
  rows := h.rows
  cols := h.cols
  pivot j hj := by
    rw [h.entry k hk j hj]
    split
    · rename_i hkr
      rw [← hkr, hg, zero_mul, add_zero]
    · exact hB.pivot j hj
  entry q hq j hj := by
    have hqr : q ≠ r := fun hqr => (List.nodup_cons.mp hnodup).1 (hqr ▸ hq)
    rw [h.entry q (hlt q (List.mem_cons_of_mem r hq)) j hj, if_neg hqr]
    exact hB.entry q (List.mem_cons_of_mem r hq) j hj

/-- If every step adds a multiple of row `k` to its row and leaves the others alone, so do all steps
together. -/
private theorem clearedBy_foldl {k : Nat} (hk : k < A.rows) {g : Nat → α} (hg : g k = 0)
    (step : DenseMatrix α → Nat → DenseMatrix α) :
    ∀ (rs : List Nat) {B : DenseMatrix α}, rs.Nodup → (∀ r ∈ rs, r < A.rows) →
      (∀ r ∈ rs, ∀ B, SharesRows A k [r] B → AddsPivotRow A k g r B (step B r)) →
      SharesRows A k rs B →
      (rs.foldl step B).rows = A.rows ∧ (rs.foldl step B).cols = A.cols ∧
        ∀ i < A.rows, ∀ j < A.cols, (rs.foldl step B).entry i j =
          if i ∈ rs then A.entry i j + g i * A.entry k j else B.entry i j
  | [], B, _, _, _, hB => ⟨hB.rows, hB.cols, fun _ _ _ _ => by simp⟩
  | r :: rs, B, hnodup, hlt, hstep, hB => by
    obtain ⟨hfirst, hrest⟩ := List.forall_mem_cons.mp hstep
    have hadds := hfirst B ⟨hB.rows, hB.cols, hB.pivot,
      List.forall_mem_singleton.mpr (hB.entry r List.mem_cons_self)⟩
    obtain ⟨hrows, hcols, hall⟩ := clearedBy_foldl hk hg step rs (List.nodup_cons.mp hnodup).2
      (List.forall_mem_cons.mp hlt).2 hrest (hB.of_addsPivotRow hk hg hnodup hlt hadds)
    refine ⟨hrows, hcols, fun i hi j hj => ?_⟩
    rw [List.foldl_cons, hall i hi j hj, hadds.entry i hi j hj]
    by_cases hir : i = r
    · subst hir
      simp [(List.nodup_cons.mp hnodup).1]
    · simp [hir]

omit [Scalar.Exact α] in
/-- Adding a multiple of row `k` to another row. -/
private theorem addsPivotRow_scaledRowAdd {k r : Nat} {g : Nat → α} {s : α}
    (hB : SharesRows A k [r] B) (hs : s = g r) : AddsPivotRow A k g r B (B.scaledRowAdd k r s) where
  rows := hB.rows
  cols := hB.cols
  entry i hi j hj := by
    rw [entry_scaledRowAdd B _ (hB.rows ▸ hi) (hB.cols ▸ hj)]
    by_cases hir : r = i
    · subst hir
      rw [if_pos rfl, if_pos rfl, hB.entry r (List.mem_singleton_self r) j hj, hB.pivot j hj, hs]
    · rw [if_neg hir, if_neg (Ne.symm hir)]

/-- A row to which nothing need be added is left alone. -/
private theorem addsPivotRow_self {k r : Nat} {g : Nat → α} (hB : SharesRows A k [r] B)
    (hg : g r = 0) : AddsPivotRow A k g r B B where
  rows := hB.rows
  cols := hB.cols
  entry i _ j hj := by
    split
    · rename_i hir
      subst hir
      rw [hB.entry i (List.mem_singleton_self i) j hj, hg, zero_mul, add_zero]
    · rfl

/-- A step of clearing column `k` adds what makes the entry in it zero. -/
private theorem addsPivotRow_clearRow {k r : Nat} (hcol : k < A.cols) (hB : SharesRows A k [r] B) :
    AddsPivotRow A k (fun i => if i = k then 0 else -A.entry i k) r B (clearRow k B r) := by
  have hentry := hB.entry r (List.mem_singleton_self r) k hcol
  unfold clearRow
  split
  · rename_i hkeep
    refine addsPivotRow_self hB ?_
    rcases hkeep with rfl | hzero
    · exact if_pos rfl
    · rw [hentry, Scalar.Exact.eq_iff] at hzero
      rw [hzero, neg_zero, ite_self]
  · rename_i hclear
    rw [not_or] at hclear
    exact addsPivotRow_scaledRowAdd hB (by rw [hentry, if_neg hclear.1])

theorem clearedBy_clearColumn {k : Nat} (hk : k < A.rows) (hcol : k < A.cols) :
    ClearedBy k (fun i => if i = k then 0 else -A.entry i k) A (A.clearColumn k) := by
  obtain ⟨hrows, hcols, hentry⟩ := clearedBy_foldl (B := A) hk (if_pos rfl) (clearRow k)
    (List.range A.rows) List.nodup_range (fun r hr => List.mem_range.mp hr)
    (fun r _ B hB => addsPivotRow_clearRow hcol hB) ⟨rfl, rfl, fun _ _ => rfl, fun _ _ _ _ => rfl⟩
  rw [← clearColumn_eq_foldl] at hrows hcols hentry
  refine ⟨hrows, hcols, fun i hi j hj => ?_⟩
  rw [hentry i hi j hj, if_pos (List.mem_range.mpr hi)]

private theorem overPivot_eq (x pivot : α) : overPivot x pivot = x / pivot := by
  unfold overPivot
  dsimp only
  rw [if_pos (Scalar.Exact.isFinite_eq _), mul_one_div]

theorem clearedBy_clearBelow {k : Nat} (hk : k < A.rows) (hcol : k < A.cols) :
    ClearedBy k (fun i => if k < i then -(A.entry i k / A.entry k k) else 0) A
      (A.clearBelow k) := by
  obtain ⟨hrows, hcols, hentry⟩ := clearedBy_foldl (B := A)
    (g := fun i => if k < i then -(A.entry i k / A.entry k k) else 0) hk
    (if_neg (Nat.lt_irrefl k))
    (fun B r => B.scaledRowAdd k r (-(overPivot (B.entry r k) (A.entry k k))))
    ((List.range A.rows).drop (k + 1)) (List.nodup_range.sublist (List.drop_sublist _ _))
    (fun r hr => (mem_drop_range.mp hr).2)
    (fun r hr B hB => addsPivotRow_scaledRowAdd hB <| by
      rw [overPivot_eq, hB.entry r (List.mem_singleton_self r) k hcol,
        if_pos (mem_drop_range.mp hr).1])
    ⟨rfl, rfl, fun _ _ => rfl, fun _ _ _ _ => rfl⟩
  refine ⟨hrows, hcols, fun i hi j hj => ?_⟩
  rw [clearBelow, hentry i hi j hj]
  by_cases hki : k < i
  · rw [if_pos (mem_drop_range.mpr ⟨hki, hi⟩)]
  · rw [if_neg fun h => hki (mem_drop_range.mp h).1, if_neg hki, zero_mul, add_zero]

/-! ### Pivots -/

private theorem isBetterPivot_iff {x y : α} : isBetterPivot x y = true ↔ |x| < |y| := by
  have hself : Scalar.eq y y = true := Scalar.Exact.eq_iff.mpr rfl
  rw [isBetterPivot, Scalar.isNaN, hself, Scalar.Exact.abs_eq_abs, Scalar.Exact.abs_eq_abs]
  simp [Scalar.Exact.lt_eq_true_iff]

/-- The better of two rows holds the larger magnitude. -/
private theorem abs_le_betterRow (A : DenseMatrix α) (k best r : Nat) :
    |A.entry best k| ≤ |A.entry (A.betterRow k best r) k| ∧
      |A.entry r k| ≤ |A.entry (A.betterRow k best r) k| := by
  unfold betterRow
  split
  · rename_i hbetter
    exact ⟨(isBetterPivot_iff.mp hbetter).le, le_rfl⟩
  · rename_i hnot
    exact ⟨le_rfl, not_lt.mp fun hlt => hnot (isBetterPivot_iff.mpr hlt)⟩

/-- The best of several rows holds the largest magnitude. -/
private theorem abs_le_foldl_betterRow {k : Nat} : ∀ (rs : List Nat) (best : Nat),
    |A.entry best k| ≤ |A.entry (rs.foldl (A.betterRow k) best) k| ∧
      ∀ r ∈ rs, |A.entry r k| ≤ |A.entry (rs.foldl (A.betterRow k) best) k|
  | [], _ => ⟨le_rfl, List.forall_mem_nil _⟩
  | r :: rs, best => by
    obtain ⟨hbest, hr⟩ := A.abs_le_betterRow k best r
    obtain ⟨hfirst, hrest⟩ := abs_le_foldl_betterRow rs (A.betterRow k best r)
    exact ⟨hbest.trans hfirst, List.forall_mem_cons.mpr ⟨hr.trans hfirst, hrest⟩⟩

/-- The pivot has the largest magnitude, so if it is zero, so is the rest of the column. -/
theorem entry_eq_zero_of_pivot {k : Nat} (h : A.entry (A.pivotRow k) k = 0) {i : Nat}
    (hki : k ≤ i) (hi : i < A.rows) : A.entry i k = 0 := by
  rw [pivotRow_eq_foldl] at h
  obtain ⟨hself, hbelow⟩ :=
    abs_le_foldl_betterRow (A := A) (k := k) ((List.range A.rows).drop (k + 1)) k
  have hle : |A.entry i k| ≤ 0 := by
    rw [h, abs_zero] at hself hbelow
    rcases Nat.lt_or_eq_of_le hki with hlt | rfl
    · exact hbelow i (mem_drop_range.mpr ⟨hlt, hi⟩)
    · exact hself
  exact abs_nonpos_iff.mp hle

/-- Numbers that vanish in the first `n` places whenever they solve the equations and vanish
everywhere else: the first `n` columns are independent. -/
def Independent (A : DenseMatrix α) (n : Nat) : Prop :=
  ∀ z : Nat → α, (∀ j, n ≤ j → z j = 0) → A.Solves z → ∀ j < n, z j = 0

/-- Matrices with the same solutions have `Independent` columns alike. -/
theorem Independent.of_solves_iff {n : Nat} (h : A.Independent n)
    (hB : ∀ z, B.Solves z ↔ A.Solves z) : B.Independent n :=
  fun z hz hsolves => h z hz ((hB z).mp hsolves)

/-- Numbers that vanish beyond place `k` meet the first columns only. -/
private theorem dot_of_vanish {k : Nat} (hk : k < A.cols) {z : Nat → α} (hz : ∀ j, k < j → z j = 0)
    (i : Nat) :
    A.dot i z = ∑ j ∈ Finset.range k, A.entry i j * z j + A.entry i k * z k := by
  rw [← Finset.sum_range_succ, dot]
  refine (Finset.sum_subset (Finset.range_subset_range.mpr hk) fun j _ hj => ?_).symm
  rw [hz j (by simpa using hj), mul_zero]

omit [Scalar.Exact α] in
/-- Bringing the pivot into its row leaves the rows above it alone. -/
theorem entry_pivotSwap_of_lt {k i j : Nat} (hk : k < A.rows) (hi : i < k) (hj : j < A.cols) :
    (A.rowSwap k (A.pivotRow k)).entry i j = A.entry i j := by
  obtain ⟨hkp, -⟩ := le_pivotRow_and_lt hk
  rw [entry_rowSwap A (by omega) hj, if_neg (by omega), if_neg (by omega)]

omit [Scalar.Exact α] in
/-- What all entries of a column have from row `k` on, they have after the pivot has been brought
into that row. -/
theorem entry_pivotSwap_of_le {k i j : Nat} (hk : k < A.rows) (hki : k ≤ i) (hi : i < A.rows)
    (hj : j < A.cols) {x : α} (hx : ∀ r, k ≤ r → r < A.rows → A.entry r j = x) :
    (A.rowSwap k (A.pivotRow k)).entry i j = x := by
  obtain ⟨hkp, hp⟩ := le_pivotRow_and_lt hk
  rw [entry_rowSwap A hi hj]
  split
  · exact hx _ hkp hp
  · split
    · exact hx k (Nat.le_refl k) hk
    · exact hx i hki hi

omit [Scalar.Exact α] in
/-- The pivot in its row. -/
theorem entry_pivotSwap_self {k : Nat} (hk : k < A.rows) {j : Nat} (hj : j < A.cols) :
    (A.rowSwap k (A.pivotRow k)).entry k j = A.entry (A.pivotRow k) j := by
  rw [entry_rowSwap A hk hj, if_pos rfl]

/-! ### Triangular factors -/

/-- Below the diagonal the first `k` columns hold zeros, and on it they do not. -/
structure Triangular (A : DenseMatrix α) (k : Nat) : Prop where
  below : ∀ j < k, ∀ i < A.rows, j < i → A.entry i j = 0
  diagonal : ∀ j < k, A.entry j j ≠ 0

/-- Triangular equations are solved from the last one upwards. -/
private theorem exists_of_triangular {f : Nat → Nat → α} :
    ∀ {m : Nat}, (∀ j < m, ∀ i < m, j < i → f i j = 0) → (∀ j < m, f j j ≠ 0) →
      ∀ b : Nat → α, ∃ z : Nat → α, ∀ i < m, ∑ j ∈ Finset.range m, f i j * z j = b i
  | 0, _, _, _ => ⟨0, fun i hi => absurd hi (by omega)⟩
  | m + 1, hbelow, hdiagonal, b => by
    let last : α := b m / f m m
    obtain ⟨z, hz⟩ := exists_of_triangular (m := m)
      (fun j hj i hi => hbelow j (by omega) i (by omega))
      (fun j hj => hdiagonal j (by omega)) fun i => b i - f i m * last
    refine ⟨fun j => if j = m then last else z j, fun i hi => ?_⟩
    have hinit : ∀ j ∈ Finset.range m, f i j * (if j = m then last else z j) = f i j * z j := by
      intro j hj
      rw [if_neg (Finset.mem_range.mp hj).ne]
    have hlast : (if m = m then last else z m) = last := if_pos rfl
    dsimp only
    rw [Finset.sum_range_succ, Finset.sum_congr rfl hinit, hlast]
    rcases Nat.lt_or_eq_of_le (Nat.le_of_lt_succ hi) with him | rfl
    · rw [hz i him, sub_add_cancel]
    · have hzero : ∀ j ∈ Finset.range i, f i j * z j = 0 := by
        intro j hj
        have hj := Finset.mem_range.mp hj
        rw [hbelow j (by omega) i hi hj, zero_mul]
      rw [Finset.sum_eq_zero hzero, zero_add]
      exact mul_div_cancel₀ _ (hdiagonal i hi)

/-- After `Triangular` columns there is a pivot other than zero. -/
theorem pivot_ne_zero_of_triangular {k : Nat} (hk : k < A.rows) (hcol : k < A.cols)
    (hA : A.Triangular k) (hind : A.Independent A.rows) : A.entry (A.pivotRow k) k ≠ 0 := by
  intro h
  obtain ⟨z, hz⟩ := exists_of_triangular (f := A.entry)
    (fun j hj i hi => hA.below j hj i (by omega)) hA.diagonal fun i => -A.entry i k
  -- The column is a combination of the ones before it.
  let y : Nat → α := fun j => if j < k then z j else if j = k then 1 else 0
  have hbeyond : ∀ j, k < j → y j = 0 := by
    intro j hj
    simp only [y]
    rw [if_neg (by omega), if_neg (by omega)]
  have hat : y k = 1 := by simp [y]
  have hbefore : ∀ j ∈ Finset.range k, ∀ i, A.entry i j * y j = A.entry i j * z j := by
    intro j hj i
    simp only [y]
    rw [if_pos (Finset.mem_range.mp hj)]
  have hsolves : A.Solves y := by
    intro i hi
    rw [dot_of_vanish hcol hbeyond, hat, mul_one, Finset.sum_congr rfl fun j hj => hbefore j hj i]
    by_cases hik : i < k
    · rw [hz i hik, neg_add_cancel]
    · have hzero : ∀ j ∈ Finset.range k, A.entry i j * z j = 0 := by
        intro j hj
        have hj := Finset.mem_range.mp hj
        rw [hA.below j hj i hi (by omega), zero_mul]
      rw [Finset.sum_eq_zero hzero, zero_add]
      exact entry_eq_zero_of_pivot h (by omega) hi
  have hone := hind y (fun j hj => hbeyond j (by omega)) hsolves k hk
  rw [hat] at hone
  exact one_ne_zero hone

end FluxBalance.DenseMatrix
