import FluxBalance.Proofs.Equation.PrimePowers
import FluxBalance.Proofs.Equation.ProductNames
import FluxBalance.Proofs.Equation.SumValue

/-!
# Collecting a product preserves its value

The factors of a product are collected by their bases, and the exponents of one base are added. This
is the law of exponents, which holds where no power divides by zero: a base that is zero at a point
has only exponents there that are not negative, and their sum is not negative either. Numbers with
one exponent are multiplied before they are raised to it.

## Main definitions and results

* `Exponents`, `exponentsValue`: exponents of one base, and the product of the powers;
* `Factors.Means`, `means_collected`: what has been collected of factors has their product as its
  value.
-/

namespace FluxBalance.Equation.Expr

variable {point : String → Option Rat} {e : Expr Constant} {es : List (Expr Constant)}
  {c d : Constant}

/-! ### Exponents -/

section

variable {β : Type} {base : β → Rat}

/-- All exponents are integers, and none is negative where the base is zero. -/
def Exponents (base : β → Rat) (l : List (β × Constant)) : Prop :=
  ∀ p ∈ l, ∃ k : ℤ, p.2.IsInt k ∧ (base p.1 = 0 → 0 ≤ k)

/-- The product of the powers. -/
def exponentsValue (base : β → Rat) (l : List (β × Constant)) : Rat :=
  (l.map fun p => base p.1 ^ p.2.value.num).prod

theorem exponentsValue_cons (p : β × Constant) (l : List (β × Constant)) :
    exponentsValue base (p :: l) = base p.1 ^ p.2.value.num * exponentsValue base l :=
  List.prod_cons

/-- A power is put to its base by adding its exponent. -/
private theorem insertExponent_exponents [DecidableEq β] (key : β) {k : ℤ} (hc : c.IsInt k)
    (hk : base key = 0 → 0 ≤ k) :
    ∀ {l : List (β × Constant)}, Exponents base l →
      Exponents base (insertExponent rationalRules.round key c l) ∧
        exponentsValue base (insertExponent rationalRules.round key c l) =
          exponentsValue base l * base key ^ k
  | [], _ => by
    refine ⟨List.forall_mem_singleton.mpr ⟨k, hc, hk⟩, ?_⟩
    rw [insertExponent, exponentsValue_cons, hc.value_eq, Rat.num_intCast]
    exact mul_comm _ _
  | (b, d) :: l, hcons => by
    obtain ⟨⟨j, hd, hj⟩, hl⟩ := List.forall_mem_cons.mp hcons
    unfold insertExponent
    split
    · rename_i hsame
      have hsum := hd.add hc
      refine ⟨List.forall_mem_cons.mpr ⟨⟨j + k, hsum, fun h => ?_⟩, hl⟩, ?_⟩
      · exact add_nonneg (hj h) (hk (hsame ▸ h))
      · rw [exponentsValue_cons, exponentsValue_cons, hsum.value_eq, hd.value_eq, Rat.num_intCast,
          Rat.num_intCast, zpow_add_of_nonneg hj fun h => hk (hsame ▸ h), hsame]
        ring
    · obtain ⟨hvalued, hvalue⟩ := insertExponent_exponents key hc hk hl
      refine ⟨List.forall_mem_cons.mpr ⟨⟨j, hd, hj⟩, hvalued⟩, ?_⟩
      rw [exponentsValue_cons, exponentsValue_cons, hvalue, mul_assoc]

end

/-! ### Single factors -/

/-- A factor is a power of its base. -/
private theorem means_asPower (h : e.Valued point) :
    (asPower e).1.Valued point ∧ ∃ k, (asPower e).2.Raises ((asPower e).1.value point) k ∧
      e.value point = (asPower e).1.value point ^ k := by
  have hone : (const .one : Expr Constant).Raises (e.value point) 1 :=
    ⟨⟨_, rfl, rfl⟩, fun _ => zero_le_one⟩
  unfold asPower
  split
  · obtain ⟨hb, k, hk⟩ := valued_pow.mp h
    exact ⟨hb, k, hk, value_pow hk⟩
  · exact h.elim
  · exact ⟨h, 1, hone, (zpow_one _).symm⟩

/-- The bases of a collection have values, their exponents are numbers, and so are the roots. -/
structure Factors.Means (point : String → Option Rat) (t : Factors) (x : Rat) : Prop where
  coefficient : t.coefficient.isFinite = true
  turns : ∃ j : ℤ, t.turns = j
  primes : t.primes.Whole
  numbers : ∀ p ∈ t.numbers, p.1.1.isFinite = true ∧ p.1.2 = const .one
  numberExponents : Exponents (fun p => p.1.value) t.numbers
  powers : ∀ p ∈ t.powers, p.1.1.Valued point ∧ p.1.2 = const .one
  powerExponents : Exponents (fun p => p.1.value point) t.powers
  value_eq : t.coefficient.value * ((-1) ^ t.turns.num * t.primes.value) *
    exponentsValue (fun p => p.1.value) t.numbers *
      exponentsValue (fun p => p.1.value point) t.powers = x

private theorem means_factors_empty : Factors.empty.Means point 1 where
  coefficient := rfl
  turns := ⟨0, rfl⟩
  primes := List.forall_mem_nil _
  numbers := List.forall_mem_nil _
  numberExponents := List.forall_mem_nil _
  powers := List.forall_mem_nil _
  powerExponents := List.forall_mem_nil _
  value_eq := by
    change (1 : Rat) * ((-1) ^ (0 : ℤ) * 1) * 1 * 1 = 1
    norm_num

/-- A power of a fraction, put together of the powers of its sign, numerator and denominator. -/
private theorem zpow_eq_parts (b : Rat) (k : ℤ) :
    b ^ k =
      (if b < 0 then (-1) ^ k else 1) * ((b.num.natAbs : Rat) ^ k * (b.den : Rat) ^ (-k)) := by
  have habs : |b| = (b.num.natAbs : Rat) * (b.den : Rat)⁻¹ := by
    calc |b| = |(b.num : Rat) / b.den| := by rw [Rat.num_div_den]
      _ = (b.num.natAbs : Rat) * (b.den : Rat)⁻¹ := by
        rw [abs_div, Nat.abs_cast, ← Int.cast_abs, Int.abs_eq_natAbs, Int.cast_natCast,
          div_eq_mul_inv]
  rw [zpow_neg, ← inv_zpow, ← mul_zpow, ← habs]
  split
  · rename_i hneg
    rw [← mul_zpow, abs_of_neg hneg]
    ring_nf
  · rename_i hnonneg
    rw [abs_of_nonneg (not_lt.mp hnonneg), one_mul]

variable {t : Factors} {x : Rat}

/-- A power of a rational that is collected multiplies the product. -/
private theorem means_insertRoot (ht : t.Means point x) {b : Rat} {k : ℤ} (hk : b = 0 → 0 ≤ k) :
    (t.insertRoot b k).Means point (x * b ^ k) := by
  obtain ⟨j, hj⟩ := ht.turns
  obtain ⟨hwhole, hvalue⟩ := Primes.insertPower_whole (n := b.num.natAbs) (k := k)
    (fun h => hk (Rat.num_eq_zero.mp (Int.natAbs_eq_zero.mp h))) ht.primes
  obtain ⟨hwhole', hvalue'⟩ := Primes.insertPower_whole (n := b.den) (k := -k)
    (fun h => absurd h b.den_ne_zero) hwhole
  rw [Int.cast_neg] at hwhole' hvalue'
  have hturns : ∃ i : ℤ, (if b < 0 then t.turns + k else t.turns) = i ∧
      (-1 : Rat) ^ i = (-1) ^ j * if b < 0 then (-1) ^ k else 1 := by
    split
    · exact ⟨j + k, by rw [hj, Int.cast_add], zpow_add₀ (by norm_num) _ _⟩
    · exact ⟨j, hj, (mul_one _).symm⟩
  obtain ⟨i, hi, hsign⟩ := hturns
  exact
    { ht with
      turns := ⟨i, hi⟩
      primes := hwhole'
      value_eq := by
        have hx := ht.value_eq
        rw [hj, Rat.num_intCast] at hx
        have hnew : (t.insertRoot b k).primes.value = t.primes.value *
            (b.num.natAbs : Rat) ^ k * (b.den : Rat) ^ (-k) := hvalue'.trans (by rw [hvalue])
        have hturns : (t.insertRoot b k).turns = i := hi
        rw [hnew, hturns, Rat.num_intCast, hsign, zpow_eq_parts b, ← hx]
        change t.coefficient.value * _ * exponentsValue _ t.numbers * exponentsValue _ t.powers = _
        ring }

/-- One more factor is put to the powers. -/
private theorem means_insertPower (ht : t.Means point x) (h : e.Valued point) :
    ({ t with powers := (insertExponent rationalRules.round
        ((asPower e).1, (asPower e).2.coefficient.2) (asPower e).2.coefficient.1 t.powers) } :
      Factors).Means point (x * e.value point) := by
  obtain ⟨hbase, k, hraises, hvalue⟩ := means_asPower h
  obtain ⟨⟨c, hc, hint⟩, hk⟩ := hraises
  have hcoefficient : (asPower e).2.coefficient = (c, const .one) := by
    rw [hc]
    rfl
  rw [hcoefficient]
  let key : Expr Constant × Expr Constant := ((asPower e).1, const .one)
  have hkey : key.1.Valued point ∧ key.2 = const .one := ⟨hbase, rfl⟩
  obtain ⟨hexponents, hproduct⟩ := insertExponent_exponents key hint hk ht.powerExponents
  exact
    { ht with
      powers := forall_insertExponent
        (P := fun key : Expr Constant × Expr Constant => key.1.Valued point ∧ key.2 = const .one)
        hkey ht.powers
      powerExponents := hexponents
      value_eq := by
        rw [hproduct, hvalue, ← ht.value_eq]
        ring }

/-- A power of a number is put to the numbers. -/
private theorem means_insertNumber (ht : t.Means point x) (hd : d.isFinite = true) {k : ℤ}
    (hc : c.IsInt k) (hk : d.value = 0 → 0 ≤ k) :
    ({ t with numbers := (insertExponent rationalRules.round (d, const .one) c t.numbers) } :
      Factors).Means point (x * d.value ^ k) := by
  let key : Constant × Expr Constant := (d, const .one)
  have hkey : key.1.isFinite = true ∧ key.2 = const .one := ⟨hd, rfl⟩
  obtain ⟨hexponents, hproduct⟩ := insertExponent_exponents key hc hk ht.numberExponents
  exact
    { ht with
      numbers := forall_insertExponent
        (P := fun key : Constant × Expr Constant => key.1.isFinite = true ∧ key.2 = const .one)
        hkey ht.numbers
      numberExponents := hexponents
      value_eq := by
        rw [hproduct, ← ht.value_eq]
        ring }

/-- A factor that is collected multiplies the product. -/
private theorem means_factors_insert (ht : t.Means point x) (h : e.Valued point) :
    (t.insert rationalRules e).Means point (x * e.value point) := by
  have hgeneral := means_insertPower ht h
  unfold Factors.insert
  dsimp only
  split
  · rename_i c
    obtain ⟨hfinite, hvalue⟩ := Constant.mul_finite ht.coefficient (valued_const.mp h)
    exact
      { ht with
        coefficient := hfinite
        value_eq := by
          rw [hvalue, value_const, ← ht.value_eq]
          ring }
  · rename_i b q
    obtain ⟨-, k, hraises⟩ := valued_pow.mp h
    rw [value_pow hraises]
    obtain ⟨⟨c, hc, hint⟩, hk⟩ := hraises
    cases hc
    obtain rfl : q = k := Option.some.inj hint
    exact means_insertRoot ht hk
  · rename_i b e' _
    obtain ⟨-, k, hraises⟩ := valued_pow.mp h
    have hvalue := value_pow hraises
    obtain ⟨⟨c, rfl, hint⟩, hk⟩ := hraises
    rw [value_const] at hk hvalue
    split
    · rename_i hpositive
      obtain ⟨-, hfinite⟩ := Bool.and_eq_true_iff.mp hpositive
      rw [hvalue]
      split
      · rename_i q _
        by_cases hone : q.num = 1
        · rw [if_pos hone]
          -- The reciprocal of an integer counts as a negative power of the integer.
          have hq : q = (q.den : Rat)⁻¹ := by
            rw [← one_div, ← Int.cast_one, ← hone, Rat.num_div_den]
          have hmeans := means_insertNumber (d := .exact q.den) ht rfl hint.neg
            fun h => absurd (Nat.cast_eq_zero.mp h) q.den_ne_zero
          rw [Constant.value_exact, zpow_neg, ← inv_zpow, ← hq] at hmeans
          exact hmeans
        · rw [if_neg hone]
          exact means_insertNumber ht rfl hint hk
      · exact means_insertNumber ht hfinite hint hk
    · exact hgeneral
  · exact hgeneral

/-- **What is collected of factors has their product as its value.** -/
theorem means_collected (h : ∀ e ∈ es, e.Valued point) :
    ((es.flatMap factors).foldl (Factors.insert rationalRules) Factors.empty).Means point
      (es.map (value point)).prod := by
  have key : ∀ (ps : List (Expr Constant)) (t : Factors) (x : Rat), (∀ p ∈ ps, p.Valued point) →
      t.Means point x → (ps.foldl (Factors.insert rationalRules) t).Means point
        (x * (ps.map (value point)).prod) := by
    intro ps
    induction ps with
    | nil =>
      intro t x _ ht
      rw [List.map_nil, List.prod_nil, mul_one]
      exact ht
    | cons p ps ih =>
      intro t x hps ht
      obtain ⟨hp, hps⟩ := List.forall_mem_cons.mp hps
      rw [List.map_cons, List.prod_cons, ← mul_assoc]
      exact ih _ _ hps (means_factors_insert ht hp)
  have hparts : ∀ p ∈ es.flatMap factors, p.Valued point := fun p hp => by
    obtain ⟨e, he, hp⟩ := List.mem_flatMap.mp hp
    exact valued_of_factors.mpr (h e he) p hp
  have hprod : ((es.flatMap factors).map (value point)).prod = (es.map (value point)).prod := by
    rw [List.map_flatMap, List.flatMap_def, List.prod_flatten, List.map_map]
    exact congrArg List.prod (List.map_congr_left fun e _ => prod_factors e)
  have hmeans := key _ _ _ hparts means_factors_empty
  rwa [one_mul, hprod] at hmeans

end FluxBalance.Equation.Expr
