import FluxBalance.Proofs.Scalar.Doubles

/-!
# Products of doubles that do not vanish

The product of two doubles that are not zero may be zero, since it is rounded. It is not, as long as
the exponents of the factors are not too small. Rounding shifts a mantissa to the right until it
fits; the exponent that it is shifted to is the least one of all doubles only if the mantissa is
small already, and so one of its bits at least is left.

## Main definitions and results

* `Packable`: what can be packed without rounding;
* `roundWithAccuracy_eq`: a number that is not too small is not rounded to zero;
* `ExponentFrom`, `exponentFrom_mul`: the product of two numbers that are not too small is not zero.
-/

namespace FluxBalance.Doubles

open Float.Model Float.Model.UnpackedFloat

/-! ### Rounding -/

/-- Shifting an extended mantissa by `k` bits divides its mantissa by `2 ^ k`. -/
theorem mantissa_shiftRight (em : ExtendedMantissa) (k : Nat) :
    (em >>> k).mantissa = em.mantissa / 2 ^ k := by
  induction k with
  | zero => exact (Nat.div_one _).symm
  | succ k ih =>
    calc (em >>> (k + 1)).mantissa
        = (em >>> k).mantissa / 2 := rfl
      _ = em.mantissa / 2 ^ (k + 1) := by rw [ih, Nat.div_div_eq_div_mul, Nat.pow_succ]

theorem mantissa_le_roundedMantissa (em : ExtendedMantissa) :
    em.mantissa ≤ em.roundedMantissa := by
  unfold ExtendedMantissa.roundedMantissa Accuracy.roundToNearestEven
  split <;> omega

/-- The bits behind a mantissa, its `Accuracy`, are no part of it. -/
theorem mantissa_ofMantissaAndAccuracy (m : Nat) (a : Accuracy) :
    (ExtendedMantissa.ofMantissaAndAccuracy m a).mantissa = m := by
  unfold ExtendedMantissa.ofMantissaAndAccuracy
  split <;> rfl

/-- What can be packed: a mantissa with a bit at least and 53 bits at most, and an exponent that is
not below the least one. -/
structure Packable (m : Nat) (e : Int) : Prop where
  pos : 0 < m
  lt : m < 2 ^ 53
  le : -1074 ≤ e

/-- The shift is by as many places as the highest bit is too high, but to the least exponent at
least. -/
theorem shiftToTargetExponent_eq (m : Nat) (e : Int) (a : Accuracy) {k : Nat}
    (hk : k = (max (m.log2 + 1 + e - 53) (-1074) - e).toNat) :
    shiftToTargetExponent .binary64 m e a =
      (ExtendedMantissa.ofMantissaAndAccuracy m a >>> k, e + k) := by
  rw [hk]
  rfl

/-- A mantissa whose highest bit is not below the least exponent can be packed after it has been
shifted. -/
private theorem packable_shiftToTargetExponent {m : Nat} {e : Int} (hm : 0 < m)
    (h : -1073 ≤ totalExponent m e) (a : Accuracy) :
    Packable (shiftToTargetExponent .binary64 m e a).1.mantissa
      (shiftToTargetExponent .binary64 m e a).2 := by
  -- The shift is by `k` places, with `k` between what is needed and the place of the highest bit.
  obtain ⟨k, hk⟩ : ∃ k, k = (max (m.log2 + 1 + e - 53) (-1074) - e).toNat := ⟨_, rfl⟩
  have hbounds : k ≤ m.log2 ∧ m.log2 < 53 + k ∧ -1074 ≤ e + k := by
    unfold totalExponent at h
    omega
  rw [shiftToTargetExponent_eq m e a hk, mantissa_shiftRight, mantissa_ofMantissaAndAccuracy]
  refine ⟨Nat.div_pos ?_ (by positivity), ?_, hbounds.2.2⟩
  · calc 2 ^ k ≤ 2 ^ m.log2 := Nat.pow_le_pow_right (by decide) hbounds.1
      _ ≤ m := Nat.log2_self_le hm.ne'
  · rw [Nat.div_lt_iff_lt_mul (by positivity), ← Nat.pow_add]
    exact (Nat.log2_lt hm.ne').mp hbounds.2.1

/-- **A number that is not too small is not rounded to zero.** -/
theorem roundWithAccuracy_eq {s : Sign} {m : Nat} {e : Int} (hm : 0 < m)
    (h : -1073 ≤ totalExponent m e) (a : Accuracy) :
    ∃ (m' : Nat) (e' : Int) (hm' : 0 < m'), Packable m' e' ∧
      roundWithAccuracy .binary64 s m e a = .finite s m' e' hm' := by
  have hfirst := packable_shiftToTargetExponent hm h a
  unfold roundWithAccuracy
  generalize shiftToTargetExponent .binary64 m e a = first at hfirst
  obtain ⟨em, e₁⟩ := first
  -- The rounded mantissa has a bit too, and it may have one more than fits.
  have hpos : 0 < em.roundedMantissa := hfirst.pos.trans_le (mantissa_le_roundedMantissa em)
  have htotal : -1073 ≤ totalExponent em.roundedMantissa e₁ := by
    have hle : -1074 ≤ e₁ := hfirst.le
    unfold totalExponent
    omega
  have hsecond := packable_shiftToTargetExponent hpos htotal .exact
  dsimp only
  generalize shiftToTargetExponent .binary64 em.roundedMantissa e₁ .exact = second at hsecond ⊢
  obtain ⟨em', e'⟩ := second
  exact ⟨em'.mantissa, e', hsecond.pos, hsecond, dif_neg hsecond.pos.ne'⟩

/-! ### Packing and unpacking -/

/-- Not a zero and, if it is finite, with an exponent that is not below the given one. -/
def ExponentFrom (k : Int) : UnpackedFloat → Prop
  | .zero _ => False
  | .finite _ _ e _ => k ≤ e
  | .infinity _ | .notANumber => True

/-- A double is not zero if its exponent or its mantissa is not. -/
private theorem exponentFrom_unpack {b : BitVec Format.binary64.numBits}
    (h : (unpackExponent b).toNat ≠ 0 ∨ (unpackMantissa b).toNat ≠ 0) :
    ExponentFrom (-1074) (UnpackedFloat.unpack .binary64 b) := by
  have hunpacks := unpacks b
  generalize UnpackedFloat.unpack .binary64 b = u at hunpacks
  cases hunpacks with
  | infinite => trivial
  | undefined => trivial
  | zero hexponent hmantissa => omega
  | subnormal => exact le_refl (-1074)
  | normal hpos =>
    show (-1074 : Int) ≤ (unpackExponent b).toNat - 1075
    omega

/-- Packing does not make a zero of what can be packed. -/
theorem exponentFrom_parts_ofParts {s : Sign} {m : Nat} {e : Int} {hm : 0 < m}
    (h : Packable m e) : ExponentFrom (-1074) (parts (ofParts (.finite s m e hm))) := by
  have hle : -1074 ≤ e := h.le
  have hbias :
      (e + Format.binary64.exponentBias + Format.binary64.mantissaBitsWithoutImplicit).toNat =
        (e + 1023 + 52).toNat := rfl
  rw [parts_ofParts]
  unfold UnpackedFloat.pack
  simp only [hbias]
  split
  · cases s <;> trivial
  · rename_i hfits
    have hfits : ¬ 2 ^ 11 ≤ (e + 1023 + 52).toNat + 1 := hfits
    split
    · -- A normal number keeps its exponent.
      refine exponentFrom_unpack (.inl ?_)
      rw [unpackExponent_packComponents]
      simp only [BitVec.toNat_ofNat]
      omega
    · -- A subnormal number keeps its mantissa.
      rename_i hlog
      have hlog : m.log2 + 1 ≠ 53 := hlog
      have hlt : m.log2 < 53 := (Nat.log2_lt hm.ne').mpr h.lt
      have hsmall : m < 2 ^ 52 := (Nat.log2_lt hm.ne').mp (by omega)
      refine exponentFrom_unpack (.inr ?_)
      rw [unpackMantissa_packComponents]
      simp only [BitVec.toNat_ofNat]
      omega

@[simp]
theorem parts_ofParts_infinity (s : Sign) : parts (ofParts (.infinity s)) = .infinity s := by
  cases s <;> rfl

/-- What is undefined stays undefined when it is packed. -/
@[simp]
theorem parts_ofParts_notANumber : parts (ofParts .notANumber) = .notANumber := rfl

/-! ### Products -/

/-- Doubles are multiplied part by part and rounded, `UnpackedFloat.mul`. -/
theorem mul_eq (x y : Float) : x * y = ofParts (mul .binary64 (parts x) (parts y)) := rfl

/-- **The product of two numbers is not zero** if one of them has a mantissa of 53 bits and their
exponents together are not too small. -/
theorem exponentFrom_mul {s : Sign} {m : Nat} {e k : Int} {hm : 0 < m} (hnormal : 2 ^ 52 ≤ m)
    (hk : -1126 ≤ e + k) {v : UnpackedFloat} (hv : ExponentFrom k v) :
    ExponentFrom (-1074) (parts (ofParts (mul .binary64 (.finite s m e hm) v))) := by
  cases v with
  | notANumber =>
    rw [show mul .binary64 (.finite s m e hm) .notANumber = .notANumber from rfl,
      parts_ofParts_notANumber]
    trivial
  | infinity t =>
    rw [show mul .binary64 (.finite s m e hm) (.infinity t) = .infinity (s * t) from rfl,
      parts_ofParts_infinity]
    trivial
  | zero t => exact hv.elim
  | finite t m' e' hm' =>
    have hlog : 52 ≤ (m * m').log2 := by
      rw [Nat.le_log2 (Nat.mul_pos hm hm').ne']
      exact hnormal.trans (Nat.le_mul_of_pos_right m hm')
    have hexponent : k ≤ e' := hv
    have htotal : -1073 ≤ totalExponent (m * m') (e + e') := by
      unfold totalExponent
      omega
    obtain ⟨m₁, e₁, hm₁, hpackable, hround⟩ :=
      roundWithAccuracy_eq (s := s * t) (Nat.mul_pos hm hm') htotal .exact
    show ExponentFrom (-1074) (parts (ofParts (roundWithAccuracy .binary64 (s * t) (m * m')
      (e + e') .exact)))
    rw [hround]
    exact exponentFrom_parts_ofParts hpackable

/-- The `parts` of one, whose mantissa is `2 ^ 52`. -/
theorem parts_one : parts 1 = .finite .positive (2 ^ 52) (-52) (by decide) := rfl

/-- What is greater than one is infinite, or its exponent is not below that of one. -/
theorem exponentFrom_of_one_lt {x : Float} (h : Scalar.lt 1 x = true) :
    ExponentFrom (-52) (parts x) := by
  have hlt : decide ((1 : Float) < x) = true := h
  rw [lt_eq, lt_eq_true_iff, parts_one] at hlt
  obtain ⟨-, -, hkey⟩ := hlt
  cases hx : parts x with
  | notANumber => trivial
  | infinity s => trivial
  | zero s =>
    rw [hx, key, key, Prod.Lex.toLex_lt_toLex] at hkey
    omega
  | finite s m e hm =>
    rw [hx] at hkey
    cases s with
    | negative =>
      rw [key, key, Prod.Lex.toLex_lt_toLex] at hkey
      omega
    | positive =>
      rw [key, key, Prod.Lex.toLex_lt_toLex, Prod.Lex.toLex_lt_toLex] at hkey
      show -52 ≤ e
      omega

end FluxBalance.Doubles
