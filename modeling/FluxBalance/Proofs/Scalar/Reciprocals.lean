import FluxBalance.Proofs.Scalar.Values

/-!
# Reciprocals of doubles

The reciprocal of a double may leave the range of doubles although the double does not: below
`2 ^ -1022` the doubles go on, and above `2 ^ 1024` they do not. Let the mantissa of the divisor
have its highest bit at place `l`. Then the quotient of mantissas lies between `2 ^ 52` and
`2 ^ 53`, and it comes so close to `2 ^ 53` that rounding could carry only if the divisor is a power
of two, where it is exact. So the exponent of the result is known, and with it whether it can be
packed.

## Main definitions and results

* `one_div_parts`: the reciprocal of a finite double, part by part;
* `isFinite_one_div_iff`: for which doubles it is finite.
-/

namespace FluxBalance.Doubles

open Float.Model Float.Model.UnpackedFloat

/-! ### Rounding what fits -/

/-- Nothing is shifted out of a mantissa that fits. -/
theorem shiftToTargetExponent_of_lt {m : Nat} {e : Int} (hm : m < 2 ^ 53) (he : -1074 ≤ e)
    (a : Accuracy) : shiftToTargetExponent .binary64 m e a =
      (ExtendedMantissa.ofMantissaAndAccuracy m a, e) := by
  have hlog : m.log2 < 53 := by
    rcases Nat.eq_zero_or_pos m with rfl | hpos
    · decide
    · exact (Nat.log2_lt hpos.ne').mpr hm
  rw [shiftToTargetExponent_eq m e a (k := 0) (by omega)]
  exact congrArg _ (add_zero e)

theorem roundToNearestEven_le (m : Nat) (a : Accuracy) : a.roundToNearestEven m ≤ m + 1 := by
  unfold Accuracy.roundToNearestEven
  split <;> omega

/-- A mantissa that fits even if it is rounded up is rounded in its place. -/
private theorem roundWithAccuracy_of_lt {s : Sign} {m : Nat} {e : Int} (hm : m + 1 < 2 ^ 53)
    (he : -1074 ≤ e) (a : Accuracy) : ∃ r, m ≤ r ∧ r < 2 ^ 53 ∧
      roundWithAccuracy .binary64 s m e a =
        if h : r = 0 then .zero s else .finite s r e (Nat.pos_of_ne_zero h) := by
  have hrounded : (ExtendedMantissa.ofMantissaAndAccuracy m a).roundedMantissa =
      a.roundToNearestEven m := by
    unfold ExtendedMantissa.ofMantissaAndAccuracy
    split <;> rfl
  have hle := mantissa_le_roundedMantissa (.ofMantissaAndAccuracy m a)
  rw [mantissa_ofMantissaAndAccuracy, hrounded] at hle
  have hr : a.roundToNearestEven m < 2 ^ 53 := (roundToNearestEven_le m a).trans_lt hm
  refine ⟨_, hle, hr, ?_⟩
  unfold roundWithAccuracy
  rw [shiftToTargetExponent_of_lt (by omega) he]
  dsimp only
  rw [hrounded, shiftToTargetExponent_of_lt hr he]
  rfl

/-- The power of two that does not fit any more is halved. -/
private theorem roundWithAccuracy_two_pow {s : Sign} {e : Int} (he : -1074 ≤ e) :
    roundWithAccuracy .binary64 s (2 ^ 53) e .exact = .finite s (2 ^ 52) (e + 1) (by decide) := by
  have hfirst : shiftToTargetExponent .binary64 (2 ^ 53) e .exact =
      (⟨2 ^ 52, false, false⟩, e + 1) := by
    rw [shiftToTargetExponent_eq _ e .exact (k := 1) (by rw [Nat.log2_two_pow]; omega)]
    rfl
  unfold roundWithAccuracy
  rw [hfirst]
  dsimp only
  rw [shiftToTargetExponent_of_lt (by decide) (by omega)]
  rfl

/-! ### One divided by a number -/

/-- What the mantissa and the exponent of one are divided into. -/
private theorem divCore_one {m : Nat} {e : Int} (he : e ≤ 971) {t : Int}
    (ht : t = max (-m.log2 - e - 53) (-1074)) :
    divCore .binary64 (2 ^ 52) (-52) m e = (2 ^ (52 + (-52 - e - t).toNat) / m, t,
      accuracyOfFraction (2 ^ (52 + (-52 - e - t).toNat) % m) m) := by
  have htarget : min (-52 - e) (Format.binary64.targetExponent
      (totalExponent (2 ^ 52) (-52) - totalExponent m e)) = t := by
    show min (-52 - e) (max (totalExponent (2 ^ 52) (-52) - totalExponent m e - 53) (-1074)) = t
    unfold totalExponent
    rw [Nat.log2_two_pow]
    omega
  unfold divCore
  rw [htarget]
  dsimp only
  rw [Nat.shiftLeft_eq, ← Nat.pow_add]

variable {s : Sign} {m : Nat} {e : Int} {hm : 0 < m}

/-- The reciprocal of a finite double is a quotient of mantissas, rounded with the accuracy of the
remainder. -/
private theorem one_div_parts {x : Float} (hx : parts x = .finite s m e hm) {t : Int}
    (ht : t = max (-m.log2 - e - 53) (-1074)) : parts (1 / x) =
      parts (ofParts (roundWithAccuracy .binary64 (.positive / s)
        (2 ^ (52 + (-52 - e - t).toNat) / m) t
        (accuracyOfFraction (2 ^ (52 + (-52 - e - t).toNat) % m) m))) := by
  rw [div_eq, hx, parts_one]
  show parts (ofParts (roundWithAccuracy _ _ (divCore _ _ _ _ _).1 (divCore _ _ _ _ _).2.1
    (divCore _ _ _ _ _).2.2)) = _
  rw [divCore_one (packable_of_parts hx).2 ht]

/-- The reciprocals of very large numbers are finite. -/
private theorem isFinite_one_div_of_large {x : Float} (hx : parts x = .finite s m e hm)
    (hlarge : 1022 ≤ m.log2 + e) : (parts (1 / x)).isFinite = true := by
  have he := (packable_of_parts hx).2
  obtain ⟨k, hk⟩ : ∃ k : Nat, (k : Int) = 1022 - e := ⟨(1022 - e).toNat, by omega⟩
  have hshift : (-52 - e - (-1074)).toNat = k := by omega
  have hquotient : 2 ^ (52 + k) / m ≤ 2 ^ 52 := by
    refine Nat.div_le_of_le_mul ?_
    calc 2 ^ (52 + k) = 2 ^ k * 2 ^ 52 := by rw [Nat.pow_add, Nat.mul_comm]
      _ ≤ 2 ^ m.log2 * 2 ^ 52 :=
        Nat.mul_le_mul_right _ (Nat.pow_le_pow_right (by decide) (by omega))
      _ ≤ m * 2 ^ 52 := Nat.mul_le_mul_right _ (Nat.log2_self_le hm.ne')
  rw [one_div_parts hx (t := -1074) (by omega), hshift]
  obtain ⟨r, -, -, hround⟩ := roundWithAccuracy_of_lt (s := .positive / s)
    (by omega : 2 ^ (52 + k) / m + 1 < 2 ^ 53) (le_refl (-1074))
    (accuracyOfFraction (2 ^ (52 + k) % m) m)
  rw [hround]
  split
  · rw [parts_ofParts_zero]
    rfl
  · exact isFinite_parts_ofParts_iff.mpr (by decide)

/-- The reciprocal of a power of two is exact. -/
private theorem isFinite_one_div_two_pow {x : Float} (hx : parts x = .finite s m e hm)
    (hpow : m = 2 ^ m.log2) (hsmall : m.log2 + e < 1022) :
    (parts (1 / x)).isFinite = true ↔ -1023 ≤ m.log2 + e := by
  obtain ⟨t, ht⟩ : ∃ t : Int, t = -m.log2 - e - 53 := ⟨_, rfl⟩
  have hshift : 52 + (-52 - e - t).toNat = 53 + m.log2 := by omega
  have hquotient : 2 ^ (53 + m.log2) / m = 2 ^ 53 := by
    rw [Nat.pow_add, ← hpow, Nat.mul_div_cancel _ hm]
  have hrest : 2 ^ (53 + m.log2) % m = 0 := by
    rw [Nat.pow_add, ← hpow, Nat.mul_mod_left]
  rw [one_div_parts hx (t := t) (by omega), hshift, hquotient, hrest,
    show accuracyOfFraction 0 m = .exact from rfl, roundWithAccuracy_two_pow (by omega),
    isFinite_parts_ofParts_iff]
  omega

/-- The mantissa of any other reciprocal is not carried over. -/
private theorem isFinite_one_div_of_ne {x : Float} (hx : parts x = .finite s m e hm)
    (hpow : m ≠ 2 ^ m.log2) (hsmall : m.log2 + e < 1022) :
    (parts (1 / x)).isFinite = true ↔ -1024 ≤ m.log2 + e := by
  obtain ⟨t, ht⟩ : ∃ t : Int, t = -m.log2 - e - 53 := ⟨_, rfl⟩
  have hshift : 52 + (-52 - e - t).toNat = 53 + m.log2 := by omega
  have hlt : 2 ^ m.log2 < m := lt_of_le_of_ne (Nat.log2_self_le hm.ne') (Ne.symm hpow)
  have hlog : 2 ^ m.log2 ≤ 2 ^ 52 :=
    Nat.pow_le_pow_right (by decide)
      (Nat.le_of_lt_succ ((Nat.log2_lt hm.ne').mpr (packable_of_parts hx).1.lt))
  have hle : 2 ^ 52 ≤ 2 ^ (53 + m.log2) / m := by
    rw [Nat.le_div_iff_mul_le hm]
    calc 2 ^ 52 * m ≤ 2 ^ 52 * 2 ^ (m.log2 + 1) :=
          Nat.mul_le_mul_left _ Nat.lt_log2_self.le
      _ = 2 ^ (53 + m.log2) := by rw [← Nat.pow_add]; congr 1; omega
  have hup : 2 ^ (53 + m.log2) / m < 2 ^ 53 - 1 := by
    rw [Nat.div_lt_iff_lt_mul hm, Nat.pow_add]
    calc 2 ^ 53 * 2 ^ m.log2 < (2 ^ 53 - 1) * (2 ^ m.log2 + 1) := by omega
      _ ≤ (2 ^ 53 - 1) * m := Nat.mul_le_mul_left _ hlt
  rw [one_div_parts hx (t := t) (by omega), hshift]
  obtain ⟨r, hr, -, hround⟩ := roundWithAccuracy_of_lt (s := .positive / s)
    (by omega : 2 ^ (53 + m.log2) / m + 1 < 2 ^ 53) (by omega : -1074 ≤ t)
    (accuracyOfFraction (2 ^ (53 + m.log2) % m) m)
  rw [hround, dif_neg (by omega), isFinite_parts_ofParts_iff]
  omega

/-! ### The reciprocals that are infinite -/

/-- The magnitude of a number is at most a power of two if its highest bit is below, or if it is
that power. -/
private theorem magnitude_le_iff (hm : 0 < m) (k : Int) :
    (m * 2 ^ e : Rat) ≤ 2 ^ k ↔ m.log2 + e < k ∨ m = 2 ^ m.log2 ∧ m.log2 + e = k := by
  have hscale : (0 : Rat) < 2 ^ e := by positivity
  have hplace (l : Nat) : (2 : Rat) ^ (l + e : Int) = ((2 ^ l : Nat) : Rat) * 2 ^ e := by
    rw [zpow_add₀ two_ne_zero, zpow_natCast, Nat.cast_pow, Nat.cast_ofNat]
  have hlow : (2 : Rat) ^ (m.log2 + e : Int) ≤ m * 2 ^ e := by
    rw [hplace, mul_le_mul_iff_of_pos_right hscale, Nat.cast_le]
    exact Nat.log2_self_le hm.ne'
  rcases lt_trichotomy (m.log2 + e : Int) k with hlt | heq | hgt
  · refine iff_of_true ?_ (.inl hlt)
    calc (m * 2 ^ e : Rat) ≤ ((2 ^ (m.log2 + 1) : Nat) : Rat) * 2 ^ e := by
          rw [mul_le_mul_iff_of_pos_right hscale, Nat.cast_le]
          exact Nat.lt_log2_self.le
      _ = 2 ^ ((m.log2 + 1 : Nat) + e : Int) := (hplace _).symm
      _ ≤ 2 ^ k := zpow_le_zpow_right₀ one_le_two (by omega)
  · rw [← heq, hplace, mul_le_mul_iff_of_pos_right hscale, Nat.cast_le]
    constructor
    · exact fun h => .inr ⟨h.antisymm (Nat.log2_self_le hm.ne'), rfl⟩
    · rintro (h | ⟨h, -⟩)
      · exact absurd h (lt_irrefl _)
      · exact h.le
  · refine iff_of_false (not_le.mpr ?_) (by omega)
    exact (zpow_lt_zpow_right₀ one_lt_two hgt).trans_le hlow

/-- **A reciprocal is infinite exactly if the number is at most `2 ^ -1024`.** -/
theorem isFinite_one_div_iff {x : Float} {q : Rat} (hq : Scalar.toRat? x = some q) (hne : q ≠ 0) :
    Scalar.isFinite (1 / x) = true ↔ 2 ^ (-1024 : Int) < |q| := by
  have hvalue : value? (parts x) = some q := (toRat?_eq x).symm.trans hq
  show (parts (1 / x)).isFinite = true ↔ _
  cases hx : parts x with
  | notANumber => rw [hx] at hvalue; cases hvalue
  | infinity s => rw [hx] at hvalue; cases hvalue
  | zero s =>
    rw [hx] at hvalue
    exact absurd (Option.some.inj hvalue).symm hne
  | finite s m e hm =>
    have habs : |q| = m * 2 ^ e := by
      rw [hx] at hvalue
      have hpos : (0 : Rat) < m * 2 ^ e := by positivity
      cases s <;> cases hvalue
      · rw [abs_neg, abs_of_pos hpos]
      · exact abs_of_pos hpos
    rw [habs, ← not_le, magnitude_le_iff hm]
    rcases lt_or_ge (m.log2 + e : Int) 1022 with hsmall | hlarge
    · by_cases hpow : m = 2 ^ m.log2
      · rw [isFinite_one_div_two_pow hx hpow hsmall]
        simp only [← hpow, true_and]
        omega
      · rw [isFinite_one_div_of_ne hx hpow hsmall]
        simp only [hpow, false_and, or_false]
        omega
    · refine iff_of_true (isFinite_one_div_of_large hx hlarge) ?_
      omega

end FluxBalance.Doubles
