import FluxBalance.DenseMatrix.Basic
import FluxBalance.Proofs.Computation

/-!
# Entries of dense matrices

What the operations on matrices do to single entries, when the checked ones succeed, and what a
column looks like as a list.

## Main definitions and results

* `sub_eq_ok_iff`, `product_eq_ok_iff`: when the checked operations succeed;
* `toList_of_cols_eq_one`: a column as a list of numbers.
-/

namespace FluxBalance.DenseMatrix

variable {α : Type}

section

variable [Zero α]

/-! ### Inside and outside the shape -/

theorem entry_outside (A : DenseMatrix α) {i j : Nat} (h : ¬(i < A.rows ∧ j < A.cols)) :
    A.entry i j = 0 := dif_neg h

/-- A column as a list holds its entries from top to bottom. -/
theorem toList_of_cols_eq_one {A : DenseMatrix α} (h : A.cols = 1) :
    A.toList = (List.range A.rows).map fun i => A.entry i 0 := by
  obtain ⟨r, c, d⟩ := A
  obtain rfl : c = 1 := h
  have hrow (v : Vector α 1) : v.toList = [v[0]] := by
    obtain ⟨⟨l⟩, hl⟩ := v
    match l, hl with
    | [x], _ => rfl
  have hmap : d.toList.map (·.toList) = d.toList.map fun v => [v[0]] :=
    List.map_congr_left fun v _ => hrow v
  rw [toList, toRows, hmap, ← List.flatMap_def, ← List.map_eq_flatMap]
  refine List.ext_getElem (by simp) fun i hi _ => ?_
  have hir : i < r := by simpa using hi
  simp [entry, hir]

/-- The entries inside the shape are listed. -/
theorem entry_mem_toList (A : DenseMatrix α) {i j : Nat} (hi : i < A.rows) (hj : j < A.cols) :
    A.entry i j ∈ A.toList := by
  have hentry : A.entry i j = A.data[i][j] := dif_pos ⟨hi, hj⟩
  rw [hentry, toList, toRows]
  refine List.mem_flatten.mpr ⟨A.data[i].toList, List.mem_map.mpr ⟨A.data[i], ?_, rfl⟩, ?_⟩
  · exact Vector.mem_toList_iff.mpr (Vector.getElem_mem hi)
  · exact Vector.mem_toList_iff.mpr (Vector.getElem_mem hj)

/-! ### Replacing an entry -/

@[simp] theorem rows_replace (A : DenseMatrix α) (i j : Nat) (x : α) :
    (A.replace i j x).rows = A.rows := rfl

@[simp] theorem cols_replace (A : DenseMatrix α) (i j : Nat) (x : α) :
    (A.replace i j x).cols = A.cols := rfl

/-- Replacing an entry changes that entry and no other. -/
theorem entry_replace (A : DenseMatrix α) {i j k l : Nat} (x : α) (hk : k < A.rows)
    (hl : l < A.cols) :
    (A.replace i j x).entry k l = if i = k ∧ j = l then x else A.entry k l := by
  rw [replace, entry_setRow A _ hk hl]
  by_cases h : i = k
  · subst h
    by_cases hj : j = l
    · simp [hj]
    · simp [hj, getElem_row]
  · simp [h]

omit [Zero α] in
theorem checkIndex_eq_ok_iff {A : DenseMatrix α} {row col : Int} {i j : Nat} :
    A.checkIndex row col = .ok (i, j) ↔ row = i ∧ col = j ∧ i < A.rows ∧ j < A.cols := by
  unfold checkIndex
  split
  · simp only [Except.ok.injEq, Prod.mk.injEq]
    omega
  · simp only [reduceCtorEq, false_iff]
    omega

/-- A checked entry is found exactly inside the shape. -/
theorem get_eq_ok_iff {A : DenseMatrix α} {row col : Int} {x : α} :
    A.get row col = .ok x ↔
      ∃ i j : Nat, row = i ∧ col = j ∧ i < A.rows ∧ j < A.cols ∧ x = A.entry i j := by
  unfold get
  rw [except_bind_eq_ok]
  constructor
  · rintro ⟨⟨i, j⟩, h, ⟨⟩⟩
    obtain ⟨hrow, hcol, hi, hj⟩ := checkIndex_eq_ok_iff.mp h
    exact ⟨i, j, hrow, hcol, hi, hj, rfl⟩
  · rintro ⟨i, j, hrow, hcol, hi, hj, rfl⟩
    exact ⟨(i, j), checkIndex_eq_ok_iff.mpr ⟨hrow, hcol, hi, hj⟩, rfl⟩

/-- A checked entry is replaced exactly inside the shape. -/
theorem set_eq_ok_iff {A B : DenseMatrix α} {row col : Int} {x : α} :
    A.set row col x = .ok B ↔
      ∃ i j : Nat, row = i ∧ col = j ∧ i < A.rows ∧ j < A.cols ∧ B = A.replace i j x := by
  unfold set
  rw [except_bind_eq_ok]
  constructor
  · rintro ⟨⟨i, j⟩, h, ⟨⟩⟩
    obtain ⟨hrow, hcol, hi, hj⟩ := checkIndex_eq_ok_iff.mp h
    exact ⟨i, j, hrow, hcol, hi, hj, rfl⟩
  · rintro ⟨i, j, hrow, hcol, hi, hj, rfl⟩
    exact ⟨(i, j), checkIndex_eq_ok_iff.mpr ⟨hrow, hcol, hi, hj⟩, rfl⟩

end

/-! ### Checked algebra -/

section

variable [Scalar α] {A B C : DenseMatrix α}

theorem add_eq_ok_iff : A.add B = .ok C ↔ A.shape = B.shape ∧ C = A.plus B := by
  unfold add
  split <;> simp_all [eq_comm]

/-- The checked difference is `minus`, for equal shapes. -/
theorem sub_eq_ok_iff : A.sub B = .ok C ↔ A.shape = B.shape ∧ C = A.minus B := by
  unfold sub
  split <;> simp_all [eq_comm]

/-- The checked product is `times`, for shapes that fit. -/
theorem product_eq_ok_iff : A.product B = .ok C ↔ A.cols = B.rows ∧ C = A.times B := by
  unfold product
  split <;> simp_all [eq_comm]

theorem entry_plus {i j : Nat} (hi : i < A.rows) (hj : j < A.cols) :
    (A.plus B).entry i j = A.entry i j + B.entry i j := entry_ofFn _ hi hj

theorem entry_minus {i j : Nat} (hi : i < A.rows) (hj : j < A.cols) :
    (A.minus B).entry i j = A.entry i j - B.entry i j := entry_ofFn _ hi hj

theorem entry_neg {i j : Nat} (hi : i < A.rows) (hj : j < A.cols) :
    A.neg.entry i j = -A.entry i j := entry_ofFn _ hi hj

theorem entry_scale {s : α} {i j : Nat} (hi : i < A.rows) (hj : j < A.cols) :
    (A.scale s).entry i j = A.entry i j * s := entry_ofFn _ hi hj

/-- Columns of one height agree entry by entry if the test says so. -/
theorem sameEntries_of_column (hA : A.cols = 1) (hB : B.cols = 1)
    (h : A.sameEntries B = true) {i : Nat} (hi : i < A.rows) :
    Scalar.eq (A.entry i 0) (B.entry i 0) = true := by
  simp only [sameEntries, Bool.and_eq_true, beq_iff_eq, List.all_eq_true] at h
  obtain ⟨hshape, hall⟩ := h
  have hrows : A.rows = B.rows := congrArg Prod.fst hshape
  refine hall (A.entry i 0, B.entry i 0) ?_
  rw [toList_of_cols_eq_one hA, toList_of_cols_eq_one hB, ← hrows, List.zip_map']
  exact List.mem_map.mpr ⟨i, List.mem_range.mpr hi, rfl⟩

end

end FluxBalance.DenseMatrix
