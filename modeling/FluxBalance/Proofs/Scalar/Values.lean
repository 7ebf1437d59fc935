import FluxBalance.Proofs.Scalar.Products

/-!
# The numbers that doubles stand for

A double that is neither infinite nor undefined is a rational number. Reading it off the bits and
reading it off the unpacked form give the same number: the fields of the bits are what the form is
unpacked from.

## Main definitions and results

* `value?`: the number that an unpacked double stands for;
* `toRat?_eq`: it is the number that the bits stand for.
-/

namespace FluxBalance.Doubles

open Float.Model Float.Model.UnpackedFloat

/-- The number that an unpacked double stands for. -/
def value? : UnpackedFloat → Option Rat
  | .zero _ => some 0
  | .finite .positive m e _ => some (m * 2 ^ e)
  | .finite .negative m e _ => some (-(m * 2 ^ e))
  | .infinity _ | .notANumber => none

/-! ### The fields of the bits -/

section

variable (b : BitVec Format.binary64.numBits)

/-- The mantissa of a bit pattern is made of its last 52 bits. -/
private theorem toNat_unpackMantissa : (unpackMantissa b).toNat = b.toNat % 2 ^ 52 := by
  simp [unpackMantissa]

private theorem toNat_unpackMantissa_lt :
    (unpackMantissa b).toNat < 2 ^ 52 := (unpackMantissa b).isLt

/-- The exponent of a bit pattern is made of the 11 bits before the mantissa. -/
private theorem toNat_unpackExponent : (unpackExponent b).toNat = b.toNat / 2 ^ 52 % 2 ^ 11 := by
  simp [unpackExponent, Nat.shiftRight_eq_div_pow]

private theorem toNat_unpackSign : (unpackSign b).toNat = b.toNat / 2 ^ 63 := by
  have hlt : b.toNat / 2 ^ 63 < 2 := Nat.div_lt_of_lt_mul b.isLt
  simp [unpackSign, Nat.shiftRight_eq_div_pow]
  omega

end

/-- A number scaled by `Number.scaled` in base two is multiplied by a power of two. -/
private theorem scaled_two (m : Nat) : ∀ e : Int, Number.scaled m 2 e = m * 2 ^ e
  | .ofNat k => by
    rw [Number.scaled]
    simp
  | .negSucc k => by
    rw [Number.scaled, Rat.mkRat_eq_div]
    simp [zpow_negSucc, div_eq_mul_inv]

/-- The value of a finite number with the given sign bit. -/
private theorem toRat_parts (S : BitVec 1) (m : Nat) (e : Int) (hm : 0 < m) :
    some (Number.Parts.toRat ⟨S.toNat == 1, m, e⟩) = value? (.finite (.ofBitVec S) m e hm) := by
  rw [Number.Parts.toRat, scaled_two]
  obtain rfl | rfl := BitVec.eq_zero_or_eq_one S <;> rfl

/-- **The bits and the unpacked form of a double stand for the same number.** -/
theorem toRat?_eq (x : Float) : Number.toRat? x = value? (parts x) := by
  obtain ⟨b, hb⟩ : ∃ b : BitVec Format.binary64.numBits, b = x.toModel.toBits.toBitVec := ⟨_, rfl⟩
  have hparts : parts x = UnpackedFloat.unpack .binary64 b := by rw [hb]; rfl
  have hbits : x.toBits.toNat = b.toNat := by rw [hb]; rfl
  have hfields : Number.partsOf? x =
      if (unpackExponent b).toNat = 2047 then none
      else if (unpackExponent b).toNat = 0 then
        some ⟨(unpackSign b).toNat == 1, (unpackMantissa b).toNat, -1074⟩
      else some ⟨(unpackSign b).toNat == 1, Nat.pow 2 52 + (unpackMantissa b).toNat,
        ((unpackExponent b).toNat : Int) - 1075⟩ := by
    rw [toNat_unpackMantissa, toNat_unpackExponent, toNat_unpackSign, ← hbits]
    rfl
  rw [hparts, Number.toRat?, hfields]
  have h := unpacks b
  generalize UnpackedFloat.unpack .binary64 b = u at h
  cases h with
  | infinite h => rw [if_pos h]; rfl
  | undefined h => rw [if_pos h]; rfl
  | zero hexponent hmantissa =>
    rw [if_neg (by omega), if_pos hexponent, hmantissa]
    simp [Number.Parts.toRat, scaled_two, value?]
  | subnormal hexponent h =>
    rw [if_neg (by omega), if_pos hexponent]
    exact toRat_parts _ _ _ h
  | normal hpos hlt h =>
    rw [if_neg (by omega), if_neg hpos]
    exact toRat_parts _ _ _ h

/-! ### Finite doubles -/

/-- A finite double that is not zero has a mantissa of at most 53 bits, and its exponent is in the
range of exponents. -/
theorem packable_of_parts {x : Float} {s : Sign} {m : Nat} {e : Int} {hm : 0 < m}
    (h : parts x = .finite s m e hm) : Packable m e ∧ e ≤ 971 := by
  have hunpacks : Unpacks x.toModel.toBits.toBitVec (parts x) := unpacks _
  have hlt := toNat_unpackMantissa_lt x.toModel.toBits.toBitVec
  rw [h] at hunpacks
  cases hunpacks with
  | subnormal hexponent hpos => exact ⟨⟨hpos, by omega, by decide⟩, by decide⟩
  | normal hpos hmax => exact ⟨⟨by omega, by omega, by omega⟩, by omega⟩

/-- The finite doubles are those that stand for a number. -/
theorem isFinite_iff {x : Float} : Scalar.isFinite x = true ↔ ∃ q, Scalar.toRat? x = some q := by
  show (parts x).isFinite = true ↔ ∃ q, Number.toRat? x = some q
  rw [toRat?_eq]
  rcases parts x with _ | _ | _ | ⟨_ | _, m, e, hm⟩ <;> simp [UnpackedFloat.isFinite, value?]

/-- The zeros are the doubles that stand for zero. -/
theorem eq_zero_iff_toRat? {x : Float} :
    Scalar.eq x 0 = true ↔ Scalar.toRat? x = some 0 := by
  show Scalar.eq x (Zero.zero : Float) = true ↔ Number.toRat? x = some 0
  rw [eq_zero_iff, toRat?_eq]
  have hpow (e : Int) : (2 : Rat) ^ e ≠ 0 := zpow_ne_zero e two_ne_zero
  cases parts x with
  | notANumber => simp [value?]
  | infinity s => simp [value?]
  | zero s => simp [value?]
  | finite s m e hm => cases s <;> simp [value?, hm.ne', hpow]

/-- Changing the sign makes no zero. -/
theorem neg_eq_zero_iff {x : Float} : Scalar.eq (-x) 0 = true ↔ Scalar.eq x 0 = true := by
  show Scalar.eq (-x) (Zero.zero : Float) = true ↔ Scalar.eq x (Zero.zero : Float) = true
  rw [eq_zero_iff, eq_zero_iff, show parts (-x) = parts (ofParts (parts x).neg) from rfl]
  cases hx : parts x with
  | notANumber => simp [UnpackedFloat.neg]
  | infinity s => simp [UnpackedFloat.neg]
  | zero s => simp [UnpackedFloat.neg]
  | finite s m e hm =>
    have hnonzero : ExponentFrom (-1074) (parts (ofParts (.finite (-s) m e hm))) :=
      exponentFrom_parts_ofParts (packable_of_parts hx).1
    refine iff_of_false ?_ (by simp)
    rintro ⟨t, ht⟩
    rw [show (UnpackedFloat.finite s m e hm).neg = .finite (-s) m e hm from rfl] at ht
    rw [ht] at hnonzero
    exact hnonzero

end FluxBalance.Doubles
