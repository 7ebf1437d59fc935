import FluxBalance.Proofs.Scalar.Reciprocals

/-!
# Products of doubles that shrink

A double that is not subnormal becomes smaller when it is multiplied with a number less than one,
although the product is rounded. The factor is at most `1 - 2 ^ -53`, so the exact product falls
short of the double by at least half of the distance to the double before it, and by more than that
unless the mantissa is `2 ^ 52`, where the doubles below lie twice as close. So the product is not
rounded up to the double again.

The pair of exponent and mantissa is what falls, `Below`. There are finitely many such pairs, so
products with one factor after the other cannot fall for ever.

## Main definitions and results

* `Positive`, `Below`: positive doubles, and their order by exponent and mantissa;
* `roundedMantissa_shiftRight_le`, `below_of_round`: rounding does not lift a product over the
  larger factor;
* `below_mul`: a positive double becomes smaller when it is multiplied with a number less than one.
-/

namespace FluxBalance.Doubles

open Float.Model Float.Model.UnpackedFloat

/-! ### Rounding down -/

/-- What is shifted out decides on the rounding: the round bit is the last one that is lost. -/
private theorem roundBit_shiftRight_succ (em : ExtendedMantissa) (k : Nat) :
    (em >>> (k + 1)).roundBit = (em.mantissa / 2 ^ k % 2 != 0) := by
  rw [← mantissa_shiftRight]
  rfl

/-- A mantissa whose round bit is not set is rounded down. -/
private theorem roundedMantissa_of_roundBit {em : ExtendedMantissa} (h : em.roundBit = false) :
    em.roundedMantissa = em.mantissa := by
  obtain ⟨m, r, s⟩ := em
  cases h
  cases s <;> rfl

/-- Rounding adds at most one to a mantissa, as `roundToNearestEven_le` says of the mantissa
alone. -/
private theorem roundedMantissa_le (em : ExtendedMantissa) :
    em.roundedMantissa ≤ em.mantissa + 1 :=
  roundToNearestEven_le _ _

/-- **A mantissa is not rounded up to a number from which it is farther away than half.** -/
theorem roundedMantissa_shiftRight_le {M k r : Nat} (h : 2 * M < (2 * r + 1) * 2 ^ k) :
    (ExtendedMantissa.ofMantissaAndAccuracy M .exact >>> k).roundedMantissa ≤ r := by
  obtain ⟨em, hem⟩ : ∃ em, em = ExtendedMantissa.ofMantissaAndAccuracy M .exact := ⟨_, rfl⟩
  have hM : em.mantissa = M := by rw [hem, mantissa_ofMantissaAndAccuracy]
  rw [← hem]
  have hmantissa : (em >>> k).mantissa = M / 2 ^ k := by rw [mantissa_shiftRight, hM]
  have hlt : M / 2 ^ k < r + 1 := by
    rw [Nat.div_lt_iff_lt_mul (by positivity)]
    nlinarith [Nat.two_pow_pos k]
  rcases Nat.lt_succ_iff_lt_or_eq.mp hlt with hlt | heq
  · exact (roundedMantissa_le _).trans (by rw [hmantissa]; exact hlt)
  -- The mantissa is the bound already, so the round bit has to be zero.
  · have hbit : (em >>> k).roundBit = false := by
      cases k with
      | zero =>
        rw [hem]
        rfl
      | succ k =>
        rw [roundBit_shiftRight_succ, hM]
        have hhalf : M / 2 ^ k < 2 * r + 1 := by
          rw [Nat.div_lt_iff_lt_mul (by positivity)]
          rw [Nat.pow_succ] at h
          nlinarith
        have hdouble : M / 2 ^ k / 2 = r := by
          rw [Nat.div_div_eq_div_mul, ← Nat.pow_succ, heq]
        have heven : M / 2 ^ k % 2 = 0 := by omega
        rw [heven]
        rfl
    rw [roundedMantissa_of_roundBit hbit, hmantissa, heq]

/-! ### Rounding a product -/

/-- The pair of an exponent and a mantissa comes before another one. -/
def Below (m : Nat) (e : Int) (r : Nat) (t : Int) : Prop := t < e ∨ t = e ∧ r < m

/-- What `roundWithAccuracy` makes of a mantissa after it has been shifted by `k` places. -/
private theorem roundWithAccuracy_cases {s : Sign} {M k : Nat} {E : Int}
    (hk : k = (max (M.log2 + 1 + E - 53) (-1074) - E).toNat) (hM : 0 < M) {R : Nat}
    (hR : R = (ExtendedMantissa.ofMantissaAndAccuracy M .exact >>> k).roundedMantissa) :
    R = 0 ∧ roundWithAccuracy .binary64 s M E .exact = .zero s ∨
    (∃ h : 0 < R, R < 2 ^ 53 ∧
      roundWithAccuracy .binary64 s M E .exact = .finite s R (E + k) h) ∨
    R = 2 ^ 53 ∧
      roundWithAccuracy .binary64 s M E .exact = .finite s (2 ^ 52) (E + k + 1) (by decide) := by
  have hlow : -1074 ≤ E + k := by omega
  have hlog : M < 2 ^ (53 + k) := (Nat.log2_lt hM.ne').mp (by omega)
  have hmantissa : (ExtendedMantissa.ofMantissaAndAccuracy M .exact >>> k).mantissa < 2 ^ 53 := by
    rw [mantissa_shiftRight, mantissa_ofMantissaAndAccuracy, Nat.div_lt_iff_lt_mul (by positivity),
      ← Nat.pow_add]
    exact hlog
  have hle : R ≤ 2 ^ 53 := by
    rw [hR]
    exact (roundedMantissa_le _).trans hmantissa
  unfold roundWithAccuracy
  rw [shiftToTargetExponent_eq M E .exact hk]
  dsimp only
  rw [← hR]
  -- The mantissa has at most 53 bits, or it is the power of two next to these.
  rcases hle.lt_or_eq with hlt | rfl
  · rw [shiftToTargetExponent_of_lt hlt hlow]
    dsimp only
    simp only [mantissa_ofMantissaAndAccuracy]
    rcases Nat.eq_zero_or_pos R with rfl | hpos
    · exact .inl ⟨rfl, dif_pos rfl⟩
    · exact .inr (.inl ⟨hpos, hlt, dif_neg hpos.ne'⟩)
  · -- Rounding has carried over into another bit.
    refine .inr (.inr ⟨rfl, ?_⟩)
    rw [shiftToTargetExponent_eq _ _ .exact (k := 1) (by rw [Nat.log2_two_pow]; omega)]
    rfl

variable {s s' : Sign} {m m' : Nat} {e e' : Int}

/-- **The product of a number with 53 bits and a number less than one is rounded to one below.** -/
theorem below_of_round (hnormal : 2 ^ 52 ≤ m) (hm : m < 2 ^ 53) (he : -1072 ≤ e) (hpos : 0 < m')
    (hm' : m' < 2 ^ 53) (he' : e' ≤ -53) :
    roundWithAccuracy .binary64 s (m * m') (e + e') .exact = .zero s ∨
    ∃ (r : Nat) (t : Int) (hr : 0 < r), r < 2 ^ 53 ∧ -1074 ≤ t ∧ Below m e r t ∧
      roundWithAccuracy .binary64 s (m * m') (e + e') .exact = .finite s r t hr := by
  obtain ⟨M, hM⟩ : ∃ M, M = m * m' := ⟨_, rfl⟩
  obtain ⟨E, hE⟩ : ∃ E, E = e + e' := ⟨_, rfl⟩
  obtain ⟨k, hk⟩ : ∃ k, k = (max (M.log2 + 1 + E - 53) (-1074) - E).toNat := ⟨_, rfl⟩
  obtain ⟨R, hR⟩ : ∃ R, R =
    (ExtendedMantissa.ofMantissaAndAccuracy M .exact >>> k).roundedMantissa := ⟨_, rfl⟩
  have hMpos : 0 < M := hM ▸ Nat.mul_pos (by omega) hpos
  have hlog : M.log2 ≤ 105 := by
    refine Nat.le_of_lt_succ ((Nat.log2_lt hMpos.ne').mpr ?_)
    calc M = m * m' := hM
      _ < 2 ^ 53 * 2 ^ 53 := Nat.mul_lt_mul'' hm hm'
      _ = 2 ^ 106 := by norm_num
  rw [← hM, ← hE]
  rcases roundWithAccuracy_cases (s := s) hk hMpos hR with ⟨-, hzero⟩ | ⟨hRpos, hlt, hround⟩ |
    ⟨hcarry, hround⟩
  · exact .inl hzero
  · refine .inr ⟨R, E + k, hRpos, hlt, by omega, ?_, hround⟩
    rcases lt_or_eq_of_le (show E + k ≤ e by omega) with hbelow | hsame
    · exact .inl hbelow
    -- The exponent stays only if the product has all of its 106 bits.
    · refine .inr ⟨hsame, ?_⟩
      have hk53 : k = 53 := by omega
      have hfull : 2 ^ 105 ≤ m * m' := by
        rw [← hM, show 105 = M.log2 by omega]
        exact Nat.log2_self_le hMpos.ne'
      have hRle : R ≤ m - 1 := by
        rw [hR, hk53]
        refine roundedMantissa_shiftRight_le ?_
        have hmul : m * m' ≤ m * (2 ^ 53 - 1) := Nat.mul_le_mul_left m (by omega)
        have hlarge : 2 ^ 52 < m := by
          by_contra hsmall
          have hm52 : m = 2 ^ 52 := by omega
          rw [hm52] at hfull
          omega
        rw [hM]
        omega
      omega
  · refine .inr ⟨2 ^ 52, E + k + 1, by decide, by decide, by omega, ?_, hround⟩
    have hle : E + k ≤ e := by omega
    by_contra hnot
    -- The mantissa would have to be the least one, and with it the product is exact.
    have hm52 : m = 2 ^ 52 ∨ E + k = e := by
      unfold Below at hnot
      omega
    have hshort : 2 * M < (2 * (2 ^ 53 - 1) + 1) * 2 ^ k := by
      rcases hm52 with rfl | hsame
      · have hlogs : M.log2 = m'.log2 + 52 := by
          have hself := Nat.log2_self_le hpos.ne'
          have hnext := Nat.lt_log2_self (n := m')
          refine (Nat.log2_eq_iff hMpos.ne').mpr ⟨?_, ?_⟩
          · rw [hM, Nat.pow_add]
            omega
          · rw [hM, show m'.log2 + 52 + 1 = m'.log2 + 1 + 52 by omega, Nat.pow_add]
            omega
        have hk' : k = m'.log2 := by
          unfold Below at hnot
          omega
        have hk52 : k ≤ 52 := by
          rw [hk']
          exact Nat.le_of_lt_succ ((Nat.log2_lt hpos.ne').mpr hm')
        have hhigh : m' < 2 ^ (k + 1) := by
          rw [hk']
          exact Nat.lt_log2_self
        have hpow : 2 ^ k < 2 ^ 53 := Nat.pow_lt_pow_right (by decide) (by omega)
        rw [Nat.pow_succ] at hhigh
        omega
      · have hk53 : k = 53 := by omega
        have hmul : m * m' ≤ m * (2 ^ 53 - 1) := Nat.mul_le_mul_left m (by omega)
        rw [hk53, hM]
        omega
    have hRle := roundedMantissa_shiftRight_le hshort
    rw [← hR, hcarry] at hRle
    omega

/-! ### Packing a product -/

private theorem unpackSign_packComponents {E : BitVec 11} {M : BitVec 52} :
    unpackSign (packComponents .binary64 s E M) = s.toBitVec := by
  change (s.toBitVec ++ E ++ M).extractLsb' 63 1 = s.toBitVec
  rw [BitVec.extractLsb'_append_eq_of_le (by decide),
    BitVec.extractLsb'_append_eq_of_le (by decide)]
  cases s <;> rfl

/-- The sign that is read back is the one that was packed. -/
private theorem ofBitVec_unpackSign_packComponents {E : BitVec 11} {M : BitVec 52} :
    Sign.ofBitVec (unpackSign (packComponents .binary64 s E M)) = s := by
  rw [unpackSign_packComponents]
  cases s <;> rfl

/-- What a number is after it has been packed: infinite if its exponent is too large, and otherwise
subnormal or the same. Its sign stays. -/
private theorem parts_ofParts_cases {r : Nat} {t : Int} (hr : 0 < r) :
    972 ≤ t ∧ parts (ofParts (.finite s r t hr)) = .infinity s ∨
    (∃ s', parts (ofParts (.finite s r t hr)) = .zero s') ∨
    ∃ (m : Nat) (e : Int) (hm : 0 < m), parts (ofParts (.finite s r t hr)) = .finite s m e hm ∧
      (r < 2 ^ 53 → -1074 ≤ t → e = -1074 ∨ e = t ∧ m = r) := by
  have hbias :
      (t + Format.binary64.exponentBias + Format.binary64.mantissaBitsWithoutImplicit).toNat =
        (t + 1023 + 52).toNat := rfl
  rw [parts_ofParts]
  unfold UnpackedFloat.pack
  simp only [hbias]
  -- The exponent field is full: packing has overflowed to an infinity.
  by_cases hlarge : 2 ^ 11 ≤ (t + 1023 + 52).toNat + 1
  · rw [if_pos hlarge]
    exact .inl ⟨by omega, parts_ofParts_infinity s⟩
  rw [if_neg hlarge]
  refine .inr ?_
  split
  · -- A mantissa with all its bits: the fields are the exponent and the bits below the first one.
    rename_i hfull
    have hunpacks := unpacks (packComponents .binary64 s (BitVec.ofNat 11 (t + 1023 + 52).toNat)
      (BitVec.ofNat 52 r))
    have hexponent : (unpackExponent (packComponents .binary64 s
        (BitVec.ofNat 11 (t + 1023 + 52).toNat) (BitVec.ofNat 52 r))).toNat =
          (t + 1023 + 52).toNat % 2 ^ 11 := by
      rw [unpackExponent_packComponents]
      rfl
    have hmantissa : (unpackMantissa (packComponents .binary64 s
        (BitVec.ofNat 11 (t + 1023 + 52).toNat) (BitVec.ofNat 52 r))).toNat = r % 2 ^ 52 := by
      rw [unpackMantissa_packComponents]
      rfl
    change (∃ s', UnpackedFloat.unpack .binary64 (packComponents .binary64 s
      (BitVec.ofNat 11 (t + 1023 + 52).toNat) (BitVec.ofNat 52 r)) = .zero s') ∨ _
    generalize UnpackedFloat.unpack .binary64 _ = u at hunpacks ⊢
    cases hunpacks with
    | infinite h | undefined h =>
      rw [hexponent] at h
      omega
    | zero => exact .inl ⟨_, rfl⟩
    | subnormal _ h =>
      exact .inr ⟨_, _, h, by rw [ofBitVec_unpackSign_packComponents], fun _ _ => .inl rfl⟩
    | normal hpos hlt h =>
      refine .inr ⟨_, _, h, by rw [ofBitVec_unpackSign_packComponents], fun hlt ht => .inr ?_⟩
      rw [hexponent, hmantissa]
      have hfull : r.log2 + 1 = 53 := hfull
      have hlow := Nat.log2_self_le hr.ne'
      rw [show r.log2 = 52 by omega] at hlow
      omega
  · -- A shorter mantissa is packed with the exponent field zero, so it is read back as subnormal.
    have hunpacks := unpacks (packComponents .binary64 s 0#11 (BitVec.ofNat 52 r))
    change (∃ s', UnpackedFloat.unpack .binary64 (packComponents .binary64 s 0#11
      (BitVec.ofNat 52 r)) = .zero s') ∨ _
    generalize UnpackedFloat.unpack .binary64 _ = u at hunpacks ⊢
    cases hunpacks with
    | infinite h | undefined h =>
      rw [unpackExponent_packComponents] at h
      cases h
    | zero => exact .inl ⟨_, rfl⟩
    | subnormal _ h =>
      exact .inr ⟨_, _, h, by rw [ofBitVec_unpackSign_packComponents], fun _ _ => .inl rfl⟩
    | normal hpos =>
      rw [unpackExponent_packComponents] at hpos
      exact absurd rfl hpos

/-! ### Products with a factor less than one -/

/-- A finite double that is not subnormal has a mantissa of 53 bits. -/
theorem normal_of_parts {x : Float} {hm : 0 < m} (h : parts x = .finite s m e hm)
    (he : e ≠ -1074) : 2 ^ 52 ≤ m := by
  have hunpacks : Unpacks x.toModel.toBits.toBitVec (parts x) := unpacks _
  rw [h] at hunpacks
  cases hunpacks with
  | subnormal => exact absurd rfl he
  | normal => omega

/-- What is less than one and positive has an exponent below that of one, by 53 bits at least. -/
private theorem exponent_le_of_lt_one {c : Float} {hm' : 0 < m'} (hc : Scalar.lt c 1 = true)
    (hparts : parts c = .finite .positive m' e' hm') : e' ≤ -53 := by
  have hlt : decide (c < (1 : Float)) = true := hc
  rw [lt_eq, lt_eq_true_iff, parts_one, hparts] at hlt
  obtain ⟨-, -, hkey⟩ := hlt
  rw [key, key, Prod.Lex.toLex_lt_toLex, Prod.Lex.toLex_lt_toLex] at hkey
  have hnormal := normal_of_parts hparts
  omega

/-- A double is positive: its unpacked form is finite and has the sign, or it is the infinity. -/
def Positive : UnpackedFloat → Prop
  | .finite .positive _ _ _ | .infinity .positive => True
  | _ => False

/-- A number is `Positive` exactly if its `key` is above that of zero. -/
theorem positive_iff {u : UnpackedFloat} : Positive u ↔ toLex (0, toLex (0, 0)) < key u := by
  rcases u with ⟨_ | _⟩ | _ | _ | ⟨_ | _, m, e, hm⟩ <;>
    simp [Positive, key, Prod.Lex.toLex_lt_toLex]

/-- What is greater than a `Positive` double is positive. -/
theorem positive_of_lt {x y : Float} (hx : Positive (parts x)) (h : Scalar.lt x y = true) :
    Positive (parts y) := by
  have hlt : decide (x < y) = true := h
  rw [lt_eq, lt_eq_true_iff] at hlt
  exact positive_iff.mpr ((positive_iff.mp hx).trans hlt.2.2)

/-- **A `Positive` double with 53 bits becomes smaller when it is multiplied with a number less than
one**, unless the product is not positive. -/
theorem below_mul {x c : Float} {hm : 0 < m} (hx : parts x = .finite .positive m e hm)
    (hnormal : 2 ^ 52 ≤ m) (he : -1072 ≤ e) (hc : Scalar.lt c 1 = true)
    (hpositive : Positive (parts (x * c))) :
    ∃ (r : Nat) (t : Int) (hr : 0 < r), parts (x * c) = .finite .positive r t hr ∧
      Below m e r t := by
  have hlt : decide (c < (1 : Float)) = true := hc
  rw [lt_eq, lt_eq_true_iff, parts_one] at hlt
  obtain ⟨hnumber, -, hkey⟩ := hlt
  have hproduct : parts (x * c) = parts (ofParts (mul .binary64 (.finite .positive m e hm)
    (parts c))) := by rw [mul_eq, hx]
  rw [hproduct] at hpositive ⊢
  have hpackable := packable_of_parts hx
  cases hparts : parts c with
  | notANumber => exact absurd hparts hnumber
  | zero s =>
    rw [hparts, show mul .binary64 (.finite .positive m e hm) (.zero s) = .zero (.positive * s) from
      rfl, parts_ofParts_zero] at hpositive
    exact hpositive.elim
  | infinity s =>
    cases s with
    | positive =>
      rw [hparts, key, key, Prod.Lex.toLex_lt_toLex] at hkey
      omega
    | negative =>
      rw [hparts, show mul .binary64 (.finite .positive m e hm) (.infinity .negative) =
        .infinity .negative from rfl, parts_ofParts_infinity] at hpositive
      exact hpositive.elim
  | finite s m' e' hm' =>
    have hround : mul .binary64 (.finite .positive m e hm) (.finite s m' e' hm') =
      roundWithAccuracy .binary64 (.positive * s) (m * m') (e + e') .exact := rfl
    rw [hparts, hround] at hpositive
    rw [hround]
    cases s with
    | negative =>
      -- The product is rounded to a number with the sign of the factor.
      exfalso
      have hsign : (Sign.positive * Sign.negative : Sign) = .negative := rfl
      rw [hsign] at hpositive
      unfold roundWithAccuracy at hpositive
      dsimp only at hpositive
      split at hpositive
      · rw [parts_ofParts_zero] at hpositive
        exact hpositive
      · rename_i hne
        rcases parts_ofParts_cases (s := .negative) (Nat.pos_of_ne_zero hne) with ⟨-, h⟩ | ⟨_, h⟩ |
          ⟨_, _, _, h, -⟩ <;>
        · rw [h] at hpositive
          exact hpositive
    | positive =>
      rcases below_of_round (s := .positive) hnormal hpackable.1.lt he hm'
        (packable_of_parts hparts).1.lt (exponent_le_of_lt_one hc hparts) with
        h | ⟨r, t, hr, hrlt, ht, hbelow, h⟩
      · rw [show (Sign.positive * Sign.positive : Sign) = .positive from rfl, h,
          parts_ofParts_zero] at hpositive
        exact hpositive.elim
      · rw [show (Sign.positive * Sign.positive : Sign) = .positive from rfl, h] at hpositive ⊢
        rcases parts_ofParts_cases (s := .positive) (t := t) hr with ⟨hlarge, -⟩ | ⟨_, hzero⟩ |
          ⟨r', t', hr', hparts', hsame⟩
        · unfold Below at hbelow
          have hmax := hpackable.2
          omega
        · rw [hzero] at hpositive
          exact hpositive.elim
        · refine ⟨r', t', hr', hparts', ?_⟩
          have hsame := hsame hrlt ht
          unfold Below at hbelow ⊢
          omega

end FluxBalance.Doubles
