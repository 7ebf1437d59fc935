import Mathlib.Algebra.Order.Field.Rat
import Mathlib.Algebra.BigOperators.Group.List.Basic
import FluxBalance.Proofs.Scalar.Lawful

/-!
# Exact arithmetic

`Scalar.Exact` says that the operations of a type of scalars are those of an ordered field and
that its tests decide order and equality. Square roots and readings of texts are left open. The
rationals are an instance; so is any ordered field once its operations are collected into a
`Scalar`.

From the laws the type gets its `Field`, its `LinearOrder` and their compatibility, so that
results about ordered fields apply to it.

## Main definitions and results

* `Scalar.Exact`: the scalars are an ordered field, and nothing is rounded;
* `lt_eq_true_iff`, `max_eq_max`: tests and maxima are those of the field.
-/

namespace FluxBalance.Scalar

/-- The scalars are an ordered field. -/
class Exact (α : Type) [Scalar α] : Prop where
  add_assoc (x y z : α) : x + y + z = x + (y + z)
  add_comm (x y : α) : x + y = y + x
  zero_add (x : α) : 0 + x = x
  neg_add_cancel (x : α) : -x + x = 0
  sub_eq_add_neg (x y : α) : x - y = x + -y
  mul_assoc (x y z : α) : x * y * z = x * (y * z)
  mul_comm (x y : α) : x * y = y * x
  one_mul (x : α) : 1 * x = x
  left_distrib (x y z : α) : x * (y + z) = x * y + x * z
  zero_lt_one : lt (0 : α) 1 = true
  div_eq_mul_one_div (x y : α) : x / y = x * (1 / y)
  mul_one_div_cancel {x : α} : x ≠ 0 → x * (1 / x) = 1
  div_zero (x : α) : x / 0 = 0
  eq_iff {x y : α} : eq x y = true ↔ x = y
  lt_irrefl (x : α) : lt x x = false
  lt_trans {x y z : α} : lt x y = true → lt y z = true → lt x z = true
  lt_total (x y : α) : lt x y = true ∨ x = y ∨ lt y x = true
  add_lt_add_left {x y : α} (z : α) : lt x y = true → lt (z + x) (z + y) = true
  mul_pos {x y : α} : lt 0 x = true → lt 0 y = true → lt 0 (x * y) = true
  isFinite_eq (x : α) : isFinite x = true
  ofRat_one : (ofRat 1 : α) = 1
  ofRat_add (p q : Rat) : (ofRat (p + q) : α) = ofRat p + ofRat q
  ofRat_mul (p q : Rat) : (ofRat (p * q) : α) = ofRat p * ofRat q
  ofPivots_eq (odd : Bool) (pivots : List α) :
    ofPivots odd pivots = if odd then -pivots.foldl (· * ·) 1 else pivots.foldl (· * ·) 1

instance : Exact Rat where
  add_assoc := add_assoc
  add_comm := add_comm
  zero_add := zero_add
  neg_add_cancel := neg_add_cancel
  sub_eq_add_neg := sub_eq_add_neg
  mul_assoc := mul_assoc
  mul_comm := mul_comm
  one_mul := one_mul
  left_distrib := left_distrib
  zero_lt_one := by decide
  div_eq_mul_one_div := div_eq_mul_one_div
  mul_one_div_cancel := mul_one_div_cancel
  div_zero := div_zero
  eq_iff := decide_eq_true_iff
  lt_irrefl x := decide_eq_false (lt_irrefl x)
  lt_trans h h' := decide_eq_true ((of_decide_eq_true h).trans (of_decide_eq_true h'))
  lt_total x y := by
    rcases lt_trichotomy x y with h | h | h
    · exact .inl (decide_eq_true h)
    · exact .inr (.inl h)
    · exact .inr (.inr (decide_eq_true h))
  add_lt_add_left {x y} z h := by
    have hxy : x < y := of_decide_eq_true h
    exact decide_eq_true (add_lt_add_right hxy z)
  mul_pos {x y} h h' := by
    have hx : (0 : Rat) < x := of_decide_eq_true h
    have hy : (0 : Rat) < y := of_decide_eq_true h'
    exact decide_eq_true (mul_pos hx hy)
  isFinite_eq _ := rfl
  ofRat_one := rfl
  ofRat_add _ _ := rfl
  ofRat_mul _ _ := rfl
  ofPivots_eq _ _ := rfl

namespace Exact

variable {α : Type} [Scalar α] [Exact α]

/-! ### The ordered field -/

instance (priority := low) field : Field α where
  add_assoc := add_assoc
  zero_add := zero_add
  add_zero x := (add_comm x 0).trans (zero_add x)
  add_comm := add_comm
  neg_add_cancel := neg_add_cancel
  sub_eq_add_neg := sub_eq_add_neg
  mul_assoc := mul_assoc
  mul_comm := mul_comm
  one_mul := one_mul
  mul_one x := (mul_comm x 1).trans (one_mul x)
  left_distrib := left_distrib
  right_distrib x y z := by
    rw [mul_comm, left_distrib, mul_comm z x, mul_comm z y]
  zero_mul x := by
    have h : 0 * x + 0 * x = 0 * x := by
      rw [mul_comm 0 x, ← left_distrib, zero_add]
    calc 0 * x = (-(0 * x) + 0 * x) + 0 * x := by rw [neg_add_cancel, zero_add]
      _ = -(0 * x) + 0 * x := by rw [add_assoc, h]
      _ = 0 := neg_add_cancel _
  mul_zero x := by
    have h : x * 0 + x * 0 = x * 0 := by rw [← left_distrib, zero_add]
    calc x * 0 = (-(x * 0) + x * 0) + x * 0 := by rw [neg_add_cancel, zero_add]
      _ = -(x * 0) + x * 0 := by rw [add_assoc, h]
      _ = 0 := neg_add_cancel _
  inv x := 1 / x
  div_eq_mul_inv := div_eq_mul_one_div
  exists_pair_ne := by
    refine ⟨0, 1, fun h => ?_⟩
    have h01 : lt (0 : α) 1 = true := zero_lt_one
    rw [← h, lt_irrefl] at h01
    cases h01
  mul_inv_cancel _ := mul_one_div_cancel
  inv_zero := div_zero 1
  nsmul := nsmulRec
  zsmul := zsmulRec
  nnqsmul := _
  nnqsmul_def _ _ := rfl
  qsmul := _
  qsmul_def _ _ := rfl

instance (priority := low) linearOrder : LinearOrder α where
  le x y := lt y x = false
  lt x y := lt x y = true
  le_refl := lt_irrefl
  le_trans x y z hxy hyz := by
    rcases lt_total x y with h | rfl | h
    · cases hzx : lt z x with
      | false => rfl
      | true => rw [← hyz, lt_trans hzx h]
    · exact hyz
    · rw [h] at hxy
      cases hxy
  le_antisymm x y hxy hyx := by
    rcases lt_total x y with h | h | h
    · rw [h] at hyx
      cases hyx
    · exact h
    · rw [h] at hxy
      cases hxy
  le_total x y := by
    cases h : lt y x with
    | false => exact .inl rfl
    | true =>
      refine .inr ?_
      cases h' : lt x y with
      | false => rfl
      | true => rw [← lt_irrefl x, lt_trans h' h]
  lt_iff_le_not_ge x y := by
    constructor
    · intro h
      refine ⟨?_, by rw [h]; exact Bool.true_eq_false.mp⟩
      cases h' : lt y x with
      | false => rfl
      | true => rw [← lt_irrefl x, lt_trans h h']
    · rintro ⟨-, h⟩
      exact Bool.eq_true_of_not_eq_false h
  toDecidableLE _ _ := inferInstanceAs (Decidable (_ = _))
  toDecidableLT _ _ := inferInstanceAs (Decidable (_ = _))
  toDecidableEq x y := decidable_of_iff (eq x y = true) eq_iff

/-- The test `Scalar.lt` is the order of the field. -/
theorem lt_eq_true_iff {x y : α} : lt x y = true ↔ x < y := Iff.rfl

instance (priority := low) isOrderedAddMonoid : IsOrderedAddMonoid α where
  add_le_add_left x y h z := by
    rcases h.lt_or_eq with h | rfl
    · rw [Exact.add_comm x, Exact.add_comm y]
      exact le_of_lt (add_lt_add_left z h)
    · exact le_rfl

instance (priority := low) zeroLEOneClass : ZeroLEOneClass α where
  zero_le_one := le_of_lt zero_lt_one

instance (priority := low) isStrictOrderedRing : IsStrictOrderedRing α :=
  .of_mul_pos fun _ _ => mul_pos

/-! ### The laws of scalars -/

/-- The same exact numbers are equal. -/
theorem same_iff {x y : α} : Same x y ↔ x = y := by
  simp only [Same, eq_iff, or_self]

instance (priority := low) lawful : Lawful α where
  eq_symm h := eq_iff.mpr (eq_iff.mp h).symm
  eq_trans h h' := eq_iff.mpr ((eq_iff.mp h).trans (eq_iff.mp h'))
  add_same h h' := by rw [same_iff.mp h, same_iff.mp h']
  sub_same h h' := by rw [same_iff.mp h, same_iff.mp h']
  mul_same h h' := by rw [same_iff.mp h, same_iff.mp h']
  neg_same h := by rw [same_iff.mp h]
  sqrt_same h := by rw [same_iff.mp h]
  lt_same h h' := by rw [same_iff.mp h, same_iff.mp h']
  isFinite_zero := isFinite_eq 0
  isFinite_neg _ := isFinite_eq _
  lt_trans := lt_trans
  lt_of_not_lt {x y z} _ _ hxy hxz := by
    have hle : y ≤ x := hxy
    exact hle.trans_lt hxz
  sub_self {x} _ := eq_iff.mpr (by rw [sub_eq_add_neg, add_comm, neg_add_cancel])
  zero_div {x y} hx _ := eq_iff.mpr (by rw [eq_iff.mp hx, div_eq_mul_one_div, zero_mul])

instance (priority := low) lawfulFinite : LawfulFinite α where
  isFinite_same h := by rw [same_iff.mp h]

/-- The magnitude of a number is its absolute value. -/
theorem abs_eq_abs (x : α) : Scalar.abs x = |x| := by
  unfold Scalar.abs
  split
  · rename_i h
    exact (abs_of_neg (lt_eq_true_iff.mp h)).symm
  · rename_i h
    split
    · rename_i h0
      rw [eq_iff.mp h0, abs_zero]
    · exact (abs_of_nonneg (le_of_not_gt fun hlt => h (lt_eq_true_iff.mpr hlt))).symm

/-- The maximum of the program is the one of the order. -/
theorem max_eq_max (x y : α) : Scalar.max x y = Max.max x y := by
  unfold Scalar.max
  split
  · rename_i h
    exact (max_eq_right (le_of_lt (lt_eq_true_iff.mp h))).symm
  · rename_i h
    exact (max_eq_left (le_of_not_gt fun hlt => h (lt_eq_true_iff.mpr hlt))).symm

/-- The largest magnitude does not depend on the order of a list. -/
theorem maxAbs_eq_of_perm {xs ys : List α} (h : xs.Perm ys) : maxAbs xs = maxAbs ys := by
  have hfold : ∀ xs : List α, maxAbs xs = xs.foldl (fun best x => Max.max best |x|) 0 := by
    intro xs
    cases xs with
    | nil => rfl
    | cons x xs =>
      rw [maxAbs, List.foldl_cons, max_eq_right (abs_nonneg x), abs_eq_abs]
      simp only [max_eq_max, abs_eq_abs]
  have : RightCommutative fun (best x : α) => Max.max best |x| :=
    ⟨fun _ _ _ => max_right_comm _ _ _⟩
  rw [hfold, hfold, h.foldl_eq]

/-- Numbers other than zero do not become zero. -/
theorem ofRat_ne_zero {q : Rat} (h : q ≠ 0) : (ofRat q : α) ≠ 0 := by
  intro h0
  have hone : (ofRat 1 : α) = ofRat q * ofRat q⁻¹ := by rw [← ofRat_mul, mul_inv_cancel₀ h]
  rw [ofRat_one, h0, zero_mul] at hone
  exact one_ne_zero hone

/-- The sum of a list is its sum in the field. -/
theorem sum_eq_sum (xs : List α) : Scalar.sum xs = xs.sum := by
  rw [Scalar.sum, List.sum_eq_foldl]

end Exact

end FluxBalance.Scalar
