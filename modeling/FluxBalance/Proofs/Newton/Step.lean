import FluxBalance.Proofs.Newton.Affine
import FluxBalance.Proofs.Scalar.Products

/-!
# The step of a finite difference

A difference quotient is divided by twice the step. The step is at least the relative one, for it is
not relative to less than one, so in exact arithmetic the divisor is not zero. In doubles the
product is rounded, but one millionth is far above the least of them, so it is not zero either.

## Main definitions and results

* `ProperStep`: the usual step of a finite difference is never lost to rounding;
* `parts_defaultStep`, `exponentFrom_max_one`: the two factors of the absolute step of a double,
  whose product is not zero.
-/

namespace FluxBalance.Newton

/-- The usual step of a finite difference is never lost to rounding. -/
class ProperStep (α : Type) [Scalar α] : Prop where
  divisor_ne_zero (x : α) : Scalar.eq (Scalar.two * absoluteStep x defaultStep) 0 = false

instance {α : Type} [Scalar α] [Scalar.Exact α] : ProperStep α where
  divisor_ne_zero x := by
    have hstep : (defaultStep : α) ≠ 0 := Scalar.Exact.ofRat_ne_zero (by decide)
    have hne : Scalar.two * absoluteStep x defaultStep ≠ 0 :=
      mul_ne_zero two_ne_zero (absoluteStep_ne_zero hstep x)
    rw [Bool.eq_false_iff]
    exact fun h => hne (Scalar.Exact.eq_iff.mp h)

section

open Doubles Float.Model.UnpackedFloat

private theorem parts_two : parts Scalar.two = .finite .positive (2 ^ 52) (-51) (by decide) := rfl

/-- The `parts` of the usual step, the double nearest to a millionth. -/
private theorem parts_defaultStep :
    parts defaultStep = .finite .positive 4722366482869645 (-72) (by decide) := rfl

/-- The maximum of one and any double has an exponent from `-52` on. -/
private theorem exponentFrom_max_one (x : Float) : ExponentFrom (-52) (parts (Scalar.max 1 x)) := by
  unfold Scalar.max
  split
  · rename_i hlt
    exact exponentFrom_of_one_lt hlt
  · rw [parts_one]
    exact le_refl _

instance : ProperStep Float where
  divisor_ne_zero x := by
    have hstep : ExponentFrom (-1074) (parts (absoluteStep x defaultStep)) := by
      unfold absoluteStep
      rw [mul_eq, parts_defaultStep]
      exact exponentFrom_mul (by decide) (by decide) (exponentFrom_max_one _)
    have hdivisor : ExponentFrom (-1074) (parts (Scalar.two * absoluteStep x defaultStep)) := by
      rw [mul_eq, parts_two]
      exact exponentFrom_mul (by decide) (by decide) hstep
    rw [Bool.eq_false_iff]
    intro hzero
    obtain ⟨s, hs⟩ := eq_zero_iff.mp hzero
    rw [hs] at hdivisor
    exact hdivisor

end

end FluxBalance.Newton
