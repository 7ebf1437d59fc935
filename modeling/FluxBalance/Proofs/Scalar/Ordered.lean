import FluxBalance.Proofs.Scalar.Doubles
import FluxBalance.Proofs.Scalar.Exact

/-!
# Numbers are ordered

A scalar that is equal to itself is a number. `Scalar.Ordered` says that only numbers are compared
and that of two numbers the first is less than the second or not less than it in the sense of
`Scalar.le`. Doubles satisfy this with their infinities, and so do exact numbers, none of which is
undefined.

## Main definitions and results

* `Ordered`: the numbers among the scalars are ordered, also where some are undefined.
-/

namespace FluxBalance

namespace Scalar

/-- The numbers among the scalars are ordered. -/
class Ordered (α : Type) [Scalar α] : Prop where
  /-- What is compared is a number. -/
  isNaN_of_lt {x y : α} : lt x y = true → isNaN x = false ∧ isNaN y = false
  le_of_not_lt {x y : α} : isNaN x = false → isNaN y = false → lt x y = false → le y x = true

/-- A number is at most itself. -/
theorem le_refl_of_number {α : Type} [Scalar α] {x : α} (hx : isNaN x = false) :
    le x x = true := by
  rw [isNaN, Bool.not_eq_false'] at hx
  rw [le, hx, Bool.or_true]

instance (priority := low) Exact.ordered {α : Type} [Scalar α] [Exact α] : Ordered α where
  isNaN_of_lt _ := by simp [isNaN, Exact.eq_iff]
  le_of_not_lt {x y} _ _ h := by
    rcases Exact.lt_total x y with hxy | rfl | hyx
    · rw [h] at hxy
      cases hxy
    · rw [le, Exact.eq_iff.mpr rfl, Bool.or_true]
    · rw [le, hyx, Bool.true_or]

end Scalar

namespace Doubles

open Float.Model

/-- A double is a number unless its unpacked form says that it is none. -/
private theorem isNaN_eq_false_iff {x : Float} :
    Scalar.isNaN x = false ↔ parts x ≠ .notANumber := by
  have heq : Scalar.eq x x = (parts x).beq (parts x) := rfl
  rw [Scalar.isNaN, Bool.not_eq_false', heq, beq_eq_true_iff]
  exact ⟨fun h => h.1, fun h => ⟨h, h, rfl⟩⟩

instance : Scalar.Ordered Float where
  isNaN_of_lt {x y} h := by
    have hlt : decide (x < y) = true := h
    rw [lt_eq, lt_eq_true_iff] at hlt
    exact ⟨isNaN_eq_false_iff.mpr hlt.1, isNaN_eq_false_iff.mpr hlt.2.1⟩
  le_of_not_lt {x y} hx hy h := by
    rw [isNaN_eq_false_iff] at hx hy
    have hnot : decide (x < y) = false := h
    rw [lt_eq, Bool.eq_false_iff, ne_eq, lt_eq_true_iff] at hnot
    have hle : key (parts y) ≤ key (parts x) := not_lt.mp fun hlt => hnot ⟨hx, hy, hlt⟩
    have hlt : Scalar.lt y x = decide (y < x) := rfl
    have heq : Scalar.eq y x = (parts y).beq (parts x) := rfl
    rw [Scalar.le, hlt, heq, lt_eq, Bool.or_eq_true, lt_eq_true_iff, beq_eq_true_iff]
    rcases hle.lt_or_eq with hkey | hkey
    · exact .inl ⟨hy, hx, hkey⟩
    · exact .inr ⟨hy, hx, hkey⟩

end Doubles

end FluxBalance
