import FluxBalance.Proofs.Computation
import FluxBalance.Proofs.Equation.Value

/-!
# Evaluation computes the value

An expression is evaluated as a fraction: the factors of a product that have negative exponents are
multiplied up to a divisor. No power of an expression with a value divides by zero, so the divisor
is never zero, and the fraction has the value of the expression.

## Main definitions and results

* `fraction_eq`: an expression that is `Valued` is evaluated by `fraction` to its value;
* `means_of_evaluate`: an `IsArithmetic` expression that is evaluated to a number has this value.
-/

namespace FluxBalance.Equation

variable {point : String → Option Rat} {x y : Rat}

/-! ### Fractions -/

namespace Fraction

/-- The fraction has the value, and nothing is divided by zero. -/
def Means (q : Fraction Rat) (x : Rat) : Prop :=
  q.divisor.getD 1 ≠ 0 ∧ q.numerator.getD 1 / q.divisor.getD 1 = x

private theorem means_whole (x : Rat) : (whole x).Means x := ⟨one_ne_zero, div_one x⟩

private theorem getD_times (p q : Option Rat) : (times p q).getD 1 = p.getD 1 * q.getD 1 := by
  cases p with
  | none =>
    rw [Option.getD_none, one_mul]
    rfl
  | some x =>
    cases q with
    | none => exact (mul_one x).symm
    | some y => rfl

/-- The product of fractions has the product for its value. -/
private theorem means_mul {p q : Fraction Rat} (hp : p.Means x) (hq : q.Means y) :
    (p.mul q).Means (x * y) := by
  obtain ⟨hp, rfl⟩ := hp
  obtain ⟨hq, rfl⟩ := hq
  have hdivisor : (p.mul q).divisor.getD 1 = p.divisor.getD 1 * q.divisor.getD 1 := getD_times _ _
  have hnumerator : (p.mul q).numerator.getD 1 = p.numerator.getD 1 * q.numerator.getD 1 :=
    getD_times _ _
  refine ⟨?_, ?_⟩
  · rw [hdivisor]
    exact mul_ne_zero hp hq
  · rw [hdivisor, hnumerator, div_mul_div_comm]

private theorem value_of_means {q : Fraction Rat} (h : q.Means x) : q.value = .ok x := by
  obtain ⟨n, d⟩ := q
  obtain ⟨hd, rfl⟩ := h
  cases d with
  | none => cases n <;> exact congrArg Except.ok (div_one _).symm
  | some d =>
    have hquotient (n : Rat) : orUndefined (Arithmetic.divide n d) = .ok (n / d) := by
      change orUndefined (if d = 0 then none else some (n / d)) = _
      rw [if_neg (show d ≠ 0 from hd)]
      rfl
    cases n <;> exact hquotient _

end Fraction

/-! ### Powers -/

/-- An integer power of a rational, where it does not divide by zero. -/
private theorem pow_intCast (x : Rat) (k : ℤ) (hk : x = 0 → 0 ≤ k) :
    Arithmetic.pow x (k : Rat) = some (x ^ k) := by
  change (if (k : Rat).den = 1 then integerPower x (k : Rat).num else none) = _
  rw [if_pos (Rat.den_intCast k), Rat.num_intCast]
  exact if_neg fun h => not_lt.mpr (hk h.1) h.2

private theorem exactPower_intCast (x : Rat) (k : ℤ) (hk : x = 0 → 0 ≤ k) :
    exactPower x (k : Rat) = .ok (x ^ k) := by
  unfold exactPower
  split
  · rename_i hone
    rw [Int.cast_eq_one.mp hone, zpow_one]
    rfl
  split
  · rename_i hhalf
    have hden := congrArg Rat.den hhalf
    rw [Rat.den_intCast] at hden
    exact absurd hden (by decide)
  · change orUndefined (Arithmetic.pow x (k : Rat)) = _
    rw [pow_intCast x k hk]
    rfl

/-- A power with a negative exponent is evaluated as the divisor of a fraction. -/
private theorem exactPower_neg_intCast {k : ℤ} (hk : x = 0 → 0 ≤ k) (hneg : (k : Rat) < 0) :
    exactPower x (-(k : Rat)) = .ok (x ^ (-k)) ∧
      (⟨none, some (x ^ (-k))⟩ : Fraction Rat).Means (x ^ k) := by
  have hneg : k < 0 := by exact_mod_cast hneg
  have hx : x ≠ 0 := fun hzero => absurd (hk hzero) (not_le.mpr hneg)
  refine ⟨?_, zpow_ne_zero _ hx, ?_⟩
  · rw [← Int.cast_neg]
    exact exactPower_intCast x (-k) fun hzero => absurd hzero hx
  · change 1 / x ^ (-k) = x ^ k
    rw [zpow_neg, one_div, inv_inv]

namespace Expr

/-- A power with an integer exponent as a fraction. -/
private theorem fraction_pow {a : Expr Constant} {d : Constant} {k : ℤ} {p : Fraction Rat}
    (inside : Bool) (ha : (a.prepare (V := Rat)).fraction point false = .ok p) (hp : p.Means x)
    (hd : d.IsInt k) (hk : x = 0 → 0 ≤ k) :
    ∃ q, ((pow a (const d)).prepare (V := Rat)).fraction point inside = .ok q ∧
      q.Means (x ^ k) := by
  have hexponent : ((const d).prepare (V := Rat)) = const ⟨d, some (k : Rat)⟩ :=
    congrArg (fun v : Option Rat => const (⟨d, v⟩ : Literal Rat)) hd
  have hprepare : ((pow a (const d)).prepare (V := Rat)) =
      pow a.prepare (const ⟨d, some (k : Rat)⟩) := congrArg (pow a.prepare) hexponent
  have hwhole : ∃ q, (Except.ok (.whole (x ^ k)) : Except Obstacle (Fraction Rat)) = .ok q ∧
      q.Means (x ^ k) := ⟨_, rfl, Fraction.means_whole _⟩
  rw [hprepare, fraction, ha]
  simp only [bind, Except.bind, fraction, orUndefined, pure, Except.pure, pow_intCast x k hk,
    Fraction.value_of_means hp, Fraction.value_of_means (Fraction.means_whole (k : Rat))]
  split
  · rename_i q _ heq
    obtain rfl : q = k := by
      cases heq
      exact Option.some.inj hd
    -- Whichever of the cases of a power it is, the whole power has the value `x ^ k`.
    split
    · rw [exactPower_intCast x k hk]
      exact hwhole
    split
    · rename_i hinside
      obtain ⟨hpower, hmeans⟩ :=
        exactPower_neg_intCast hk (of_decide_eq_true (Bool.and_eq_true_iff.mp hinside).2)
      rw [hpower]
      exact ⟨_, rfl, hmeans⟩
    split
    · -- Of the exponents that are treated as roots only minus one is an integer.
      rename_i hroot
      have hneg : (k : Rat) < 0 := by
        rcases hroot with hone | hhalf
        · rw [hone]
          norm_num
        · have hden := congrArg Rat.den hhalf
          rw [Rat.den_intCast] at hden
          exact absurd hden (by decide)
      obtain ⟨hpower, hmeans⟩ := exactPower_neg_intCast hk hneg
      rw [hpower]
      dsimp only
      rw [Fraction.value_of_means hmeans]
      exact hwhole
    · exact hwhole
  · exact hwhole

/-- **An expression with a value is evaluated to it.** -/
theorem fraction_eq : ∀ {e : Expr Constant} (inside : Bool), e.Valued point →
    ∃ q, (e.prepare (V := Rat)).fraction point inside = .ok q ∧ q.Means (e.value point)
  | const c, _, h => by
    have hc : c.toRat? = some c.value := Constant.isFinite_iff.mp h
    refine ⟨_, ?_, Fraction.means_whole c.value⟩
    change (do return .whole (← orUndefined c.toRat?) : Except Obstacle (Fraction Rat)) = _
    rw [hc]
    rfl
  | var n, _, h => by
    obtain ⟨x, hx⟩ := Option.isSome_iff_exists.mp h
    refine ⟨_, ?_, Fraction.means_whole _⟩
    change (do return .whole (← orUndefined (point n)) : Except Obstacle (Fraction Rat)) = _
    rw [value, hx]
    rfl
  | add a b, _, h => by
    obtain ⟨p, hp, ha⟩ := fraction_eq false (valued_add.mp h).1
    obtain ⟨q, hq, hb⟩ := fraction_eq false (valued_add.mp h).2
    refine ⟨_, ?_, Fraction.means_whole _⟩
    change (do
      let x ← (← (a.prepare (V := Rat)).fraction point false).value
      let y ← (← (b.prepare (V := Rat)).fraction point false).value
      return .whole (x + y) : Except Obstacle (Fraction Rat)) = _
    rw [hp, hq]
    simp only [bind, Except.bind, Fraction.value_of_means ha, Fraction.value_of_means hb]
    rfl
  | mul a b, inside, h => by
    -- Inside a product the divisor is kept apart, and at the outside the product is divided by it.
    obtain ⟨p, hp, ha⟩ := fraction_eq true (valued_mul.mp h).1
    obtain ⟨q, hq, hb⟩ := fraction_eq true (valued_mul.mp h).2
    have hmul := Fraction.means_mul ha hb
    change ∃ r, (do
      let p ← (a.prepare (V := Rat)).fraction point true
      let q ← (b.prepare (V := Rat)).fraction point true
      if inside then return p.mul q else return .whole (← (p.mul q).value) :
        Except Obstacle (Fraction Rat)) = .ok r ∧ _
    rw [hp, hq]
    simp only [bind, Except.bind]
    split
    · exact ⟨_, rfl, hmul⟩
    · rw [Fraction.value_of_means hmul]
      exact ⟨_, rfl, Fraction.means_whole _⟩
  | pow a b, inside, h => by
    obtain ⟨hbase, k, hraises⟩ := valued_pow.mp h
    obtain ⟨p, hp, ha⟩ := fraction_eq false hbase
    rw [value_pow hraises]
    obtain ⟨⟨d, rfl, hd⟩, hk⟩ := hraises
    exact fraction_pow inside hp ha hd hk

theorem evaluate_eq {e : Expr Constant} (h : e.Means point x) :
    e.evaluate point = .ok x := by
  obtain ⟨q, hq, hmeans⟩ := fraction_eq false h.valued
  unfold evaluate evaluatePrepared
  rw [hq, ← h.value_eq]
  exact Fraction.value_of_means hmeans

/-! ### What can be evaluated has a value -/

end Expr

namespace Fraction

/-- A fraction that has a value does not divide by zero. -/
theorem divisor_ne_zero {q : Fraction Rat} (h : q.value = .ok x) : q.divisor.getD 1 ≠ 0 := by
  obtain ⟨n, d⟩ := q
  cases d with
  | none => exact one_ne_zero
  | some d =>
    rintro rfl
    have hundefined : (⟨n, some 0⟩ : Fraction Rat).value = .error .undefined := by
      cases n <;> rfl
    cases hundefined.symm.trans h

/-- A product of fractions divides by zero exactly if one of them does. -/
private theorem divisor_mul {p q : Fraction Rat} : (p.mul q).divisor.getD 1 ≠ 0 ↔
    p.divisor.getD 1 ≠ 0 ∧ q.divisor.getD 1 ≠ 0 := by
  rw [show (p.mul q).divisor.getD 1 = _ from getD_times _ _]
  exact mul_ne_zero_iff

end Fraction

/-- A power has a value for integer exponents only, where it does not divide by zero. -/
private theorem pow_eq_some {v : Rat} (h : Arithmetic.pow x y = some v) :
    ∃ k : ℤ, y = k ∧ (x = 0 → 0 ≤ k) ∧ v = x ^ k := by
  change (if y.den = 1 then integerPower x y.num else none) = _ at h
  split at h
  · rename_i hden
    unfold integerPower at h
    split at h
    · cases h
    · rename_i hsign
      cases h
      exact ⟨y.num, (Rat.coe_int_num_of_den_eq_one hden).symm,
        fun hx => not_lt.mp fun hneg => hsign ⟨hx, hneg⟩, rfl⟩
  · cases h

private theorem orUndefined_eq_ok {V : Type} {o : Option V} {v : V} :
    orUndefined o = .ok v ↔ o = some v := by
  cases o with
  | none => exact ⟨nofun, nofun⟩
  | some w => exact ⟨fun h => congrArg some (Except.ok.inj h), fun h => congrArg Except.ok
      (Option.some.inj h)⟩

/-- An `exactPower` has a value for integer exponents only, where it does not divide by zero. -/
private theorem exactPower_eq_ok {q v : Rat} (h : exactPower x q = .ok v) :
    ∃ k : ℤ, q = k ∧ (x = 0 → 0 ≤ k) ∧ v = x ^ k := by
  unfold exactPower at h
  split at h
  · rename_i hone
    cases h
    exact ⟨1, by rw [hone, Int.cast_one], fun _ => zero_le_one, (zpow_one x).symm⟩
  split at h
  · cases h
  · exact pow_eq_some (orUndefined_eq_ok.mp h)

/-- A power that is evaluated as the divisor of a fraction and is not zero has an integer exponent:
its base is not zero either. -/
private theorem exists_intCast_of_exactPower_neg {v : Rat} (hv : exactPower x (-y) = .ok v)
    (hzero : v ≠ 0) (hneg : y < 0) : ∃ k : ℤ, y = k ∧ (x = 0 → 0 ≤ k) := by
  obtain ⟨k, hk, -, rfl⟩ := exactPower_eq_ok hv
  have hk0 : k ≠ 0 := by
    rintro rfl
    rw [Int.cast_zero, neg_eq_zero] at hk
    exact absurd hk hneg.ne
  refine ⟨-k, by rw [Int.cast_neg, ← hk, neg_neg], ?_⟩
  rintro rfl
  exact absurd (zero_zpow k hk0) hzero

namespace Expr

/-- The expression is made of numbers and names by sums, products and powers, and its exponents are
numbers. -/
def IsArithmetic : Expr Constant → Prop
  | const _ | var _ => True
  | add a b | mul a b => a.IsArithmetic ∧ b.IsArithmetic
  | pow a b => a.IsArithmetic ∧ ∃ c, b = const c
  | _ => False

/-- The exponent of a power that is evaluated is an integer, which is not negative if the base is
zero. -/
private theorem raises_of_fraction {a : Expr Constant} {d : Constant} {inside : Bool}
    {q : Fraction Rat} (h : ((pow a (const d)).prepare (V := Rat)).fraction point inside = .ok q)
    (hq : q.divisor.getD 1 ≠ 0) :
    ∃ p x k, (a.prepare (V := Rat)).fraction point false = .ok p ∧ p.value = .ok x ∧
      d.IsInt k ∧ (x = 0 → 0 ≤ k) := by
  obtain ⟨p, hp, hbase⟩ := except_bind_eq_ok.mp h
  obtain ⟨x, hx, hexponent⟩ := except_bind_eq_ok.mp hbase
  obtain ⟨r, hr, hwhole⟩ := except_bind_eq_ok.mp hexponent
  obtain ⟨y, hy, hpower⟩ := except_bind_eq_ok.mp hwhole
  clear h hbase hexponent hwhole
  have hdy : d.toRat? = some y := by
    obtain ⟨w, hw, hwhole⟩ := except_bind_eq_ok.mp hr
    cases hwhole
    cases (Fraction.value_of_means (Fraction.means_whole w)).symm.trans hy
    exact orUndefined_eq_ok.mp hw
  have hinteger : (∃ k : ℤ, y = k ∧ (x = 0 → 0 ≤ k)) → ∃ p x k,
      (a.prepare (V := Rat)).fraction point false = .ok p ∧ p.value = .ok x ∧ d.IsInt k ∧
        (x = 0 → 0 ≤ k) := by
    rintro ⟨k, rfl, hk⟩
    exact ⟨p, x, k, hp, hx, hdy, hk⟩
  have hgeneral (h : (do return Fraction.whole (← orUndefined (Arithmetic.pow x y))) =
      (.ok q : Except Obstacle (Fraction Rat))) : ∃ k : ℤ, y = k ∧ (x = 0 → 0 ≤ k) := by
    obtain ⟨v, hv, -⟩ := except_bind_eq_ok.mp h
    obtain ⟨k, hk, hsign, -⟩ := pow_eq_some (orUndefined_eq_ok.mp hv)
    exact ⟨k, hk, hsign⟩
  apply hinteger
  dsimp only at hpower
  -- A power is evaluated in its own way only if its exponent is a literal.
  split at hpower
  · rename_i hliteral
    cases hliteral
    cases hdy
    split at hpower
    · obtain ⟨v, hv, -⟩ := except_bind_eq_ok.mp hpower
      obtain ⟨k, hk, hsign, -⟩ := exactPower_eq_ok hv
      exact ⟨k, hk, hsign⟩
    split at hpower
    · rename_i hinside
      obtain ⟨v, hv, hdivisor⟩ := except_bind_eq_ok.mp hpower
      cases hdivisor
      exact exists_intCast_of_exactPower_neg hv hq
        (of_decide_eq_true (Bool.and_eq_true_iff.mp hinside).2)
    split at hpower
    · rename_i hroot
      have hneg : y < 0 := by
        rcases hroot with rfl | rfl <;> decide
      obtain ⟨v, hv, hquotient⟩ := except_bind_eq_ok.mp hpower
      obtain ⟨w, hw, -⟩ := except_bind_eq_ok.mp hquotient
      exact exists_intCast_of_exactPower_neg hv (Fraction.divisor_ne_zero hw) hneg
    · exact hgeneral hpower
  · exact hgeneral hpower

/-- By induction on the expression: what is prepared and has a value has one as it stands. -/
private theorem valued_of_fraction : ∀ {e : Expr Constant} {inside : Bool} {q : Fraction Rat},
    e.IsArithmetic → (e.prepare (V := Rat)).fraction point inside = .ok q →
      q.divisor.getD 1 ≠ 0 → e.Valued point
  | const c, _, _, _, h, _ => by
    obtain ⟨v, hv, -⟩ := except_bind_eq_ok.mp h
    exact (Constant.of_toRat? (orUndefined_eq_ok.mp hv)).1
  | var n, _, _, _, h, _ => by
    obtain ⟨v, hv, -⟩ := except_bind_eq_ok.mp h
    exact Option.isSome_of_eq_some (orUndefined_eq_ok.mp hv)
  | add a b, _, _, he, h, _ => by
    obtain ⟨p, hp, h⟩ := except_bind_eq_ok.mp h
    obtain ⟨x, hx, h⟩ := except_bind_eq_ok.mp h
    obtain ⟨r, hr, h⟩ := except_bind_eq_ok.mp h
    obtain ⟨y, hy, -⟩ := except_bind_eq_ok.mp h
    exact ⟨valued_of_fraction he.1 hp (Fraction.divisor_ne_zero hx),
      valued_of_fraction he.2 hr (Fraction.divisor_ne_zero hy)⟩
  | mul a b, inside, q, he, h, hq => by
    obtain ⟨p, hp, h⟩ := except_bind_eq_ok.mp h
    obtain ⟨r, hr, h⟩ := except_bind_eq_ok.mp h
    have hdivisor : (p.mul r).divisor.getD 1 ≠ 0 := by
      split at h
      · cases h
        exact hq
      · obtain ⟨v, hv, -⟩ := except_bind_eq_ok.mp h
        exact Fraction.divisor_ne_zero hv
    obtain ⟨hpd, hrd⟩ := Fraction.divisor_mul.mp hdivisor
    exact ⟨valued_of_fraction he.1 hp hpd, valued_of_fraction he.2 hr hrd⟩
  | pow a b, inside, q, he, h, hq => by
    obtain ⟨ha, d, rfl⟩ := he
    obtain ⟨p, x, k, hp, hx, hd, hk⟩ := raises_of_fraction h hq
    have hbase : a.Valued point := valued_of_fraction ha hp (Fraction.divisor_ne_zero hx)
    -- The base is evaluated to its value, so the number that was found to be raised is this value.
    obtain ⟨p', hp', hmeans⟩ := fraction_eq false hbase
    obtain rfl : p' = p := Except.ok.inj (hp'.symm.trans hp)
    obtain rfl : a.value point = x :=
      Except.ok.inj ((Fraction.value_of_means hmeans).symm.trans hx)
    exact ⟨hbase, k, ⟨d, rfl, hd⟩, hk⟩
  | apply .., _, _, he, _, _ | apply₂ .., _, _, he, _, _ | unknown _, _, _, he, _, _
  | applied .., _, _, he, _, _ => he.elim

/-- **An expression that is evaluated to a number has this value.** -/
theorem means_of_evaluate {e : Expr Constant} (he : e.IsArithmetic)
    (h : e.evaluate point = .ok x) : e.Means point x := by
  obtain ⟨q, hq, hvalue⟩ := except_bind_eq_ok.mp h
  have hvalued := valued_of_fraction he hq (Fraction.divisor_ne_zero hvalue)
  refine ⟨hvalued, ?_⟩
  exact Except.ok.inj ((evaluate_eq ⟨hvalued, rfl⟩).symm.trans h)

end Expr

end FluxBalance.Equation
