import Mathlib.Algebra.Order.Ring.Cast
import Mathlib.Data.Rat.Cast.Order
import FluxBalance.Proofs.Scalar.Exact

/-!
# Rational arithmetic

The laws of `Scalar.Exact` leave open what the exact value of a number is. `Scalar.Rational` says
that each number has one, and that it is the number of this value; so arithmetic is that of the
rationals. The embedding of the rationals is the one that every field of characteristic zero has,
so that bounds can be computed with rationals and be carried over.

## Main definitions and results

* `Rational`: scalars that are the numbers of their exact values;
* `Exact.ofRat_eq_cast`: rationals are embedded by the cast.
-/

namespace FluxBalance.Scalar

/-- Exact arithmetic in which each number is the number of its exact value. -/
class Rational (α : Type) [Scalar α] : Prop extends Exact α where
  exists_toRat? (x : α) : ∃ q, toRat? x = some q ∧ ofRat q = x

instance : Rational Rat where
  exists_toRat? x := ⟨x, rfl, rfl⟩

section

variable {α : Type} [Scalar α] [Exact α]

/-- The embedding of the rationals is a homomorphism of rings. -/
def Exact.ofRatHom : Rat →+* α :=
  RingHom.mk' ⟨⟨ofRat, Exact.ofRat_one⟩, Exact.ofRat_mul⟩ Exact.ofRat_add

/-- In exact arithmetic `Scalar.ofRat` is the cast of the rationals into the field. -/
theorem Exact.ofRat_eq_cast (q : Rat) : (ofRat q : α) = q := eq_ratCast Exact.ofRatHom q

end

/-- The exact value of a number is the rational that is embedded as this number. -/
theorem Rational.exists_cast {α : Type} [Scalar α] [Rational α] (x : α) :
    ∃ q : Rat, toRat? x = some q ∧ (q : α) = x := by
  obtain ⟨q, hq, rfl⟩ := Rational.exists_toRat? x
  exact ⟨q, hq, (Exact.ofRat_eq_cast q).symm⟩

end FluxBalance.Scalar
