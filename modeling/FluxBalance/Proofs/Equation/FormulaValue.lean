import FluxBalance.Proofs.Equation.ProductValue

/-!
# Simplification preserves the value of a formula

A formula that is read directly applies each operator to the values of its operands. Simplification
makes an expression of it instead, operator by operator, with the sums, products and powers of the
simplifier. By induction on the formula the expression has the formula's value. The exponents of the
formula have to be integers whatever the names stand for; they `simplify` to numbers.

## Main definitions and results

* `IntegerPowers`: formulas whose exponents are integers;
* `isNumber_simplify`, `means_simplify`: what `simplify` makes of a formula has the value of the
  formula.
-/

namespace FluxBalance.Equation

variable {point : String → Option Rat} {c d : Constant}

namespace Expr

variable {a b : Expr Constant} {x y : Rat}

/-- The `sum` of two expressions has the sum for its value. -/
theorem means_sum_pair (ha : a.Means point x) (hb : b.Means point y) :
    (sum rationalRules.round [a, b]).Means point (x + y) := by
  have h := means_sum
    (List.forall_mem_cons.mpr ⟨ha.valued, List.forall_mem_singleton.mpr hb.valued⟩)
  rwa [List.map_cons, List.map_singleton, List.sum_cons, List.sum_singleton, ha.value_eq,
    hb.value_eq] at h

/-- The `product` of two expressions has the product for its value. -/
private theorem means_product_pair (ha : a.Means point x) (hb : b.Means point y) :
    (product rationalRules [a, b]).Means point (x * y) := by
  have h := means_product
    (List.forall_mem_cons.mpr ⟨ha.valued, List.forall_mem_singleton.mpr hb.valued⟩)
  rwa [List.map_cons, List.map_singleton, List.prod_cons, List.prod_singleton, ha.value_eq,
    hb.value_eq] at h

/-- Minus one times an expression has the opposite value. -/
theorem means_opposite (ha : a.Means point x) :
    (product rationalRules [const .minusOne, a]).Means point (-x) := by
  rw [← neg_one_mul]
  exact means_product_pair ⟨rfl, rfl⟩ ha

/-- The `quotient` has the quotient for its value, unless it divides by zero. -/
private theorem means_quotient (ha : a.Means point x) (hb : b.Means point y) (hy : y ≠ 0) :
    (quotient rationalRules a b).Means point (x / y) := by
  have hraises : (const .minusOne : Expr Constant).Raises (b.value point) (-1) :=
    ⟨⟨_, rfl, rfl⟩, fun h => absurd (hb.value_eq.symm.trans h) hy⟩
  have hpower := means_power hb.valued hraises
  rw [hb.value_eq, zpow_neg_one] at hpower
  rw [div_eq_mul_inv]
  exact means_product_pair ha hpower

/-! ### Numbers -/

private theorem IsNumber.of_means {r : Constant} (h : a = const r) (ha : a.Means point x) :
    a.IsNumber x := by
  subst h
  exact ⟨r, rfl, ha.valued, ha.value_eq⟩

private theorem isNumber_sum (ha : a.IsNumber x) (hb : b.IsNumber y) :
    (sum rationalRules.round [a, b]).IsNumber (x + y) := by
  have hmeans : (sum rationalRules.round [a, b]).Means (fun _ => none) (x + y) :=
    means_sum_pair ha.means hb.means
  obtain ⟨c, rfl, -⟩ := ha
  obtain ⟨d, rfl, -⟩ := hb
  have hnumber : ∃ r, sum rationalRules.round [const c, const d] = const r := by
    change ∃ r, Terms.toExpr ⟨(Constant.zero.add rationalRules.round c).add rationalRules.round d,
      []⟩ = const r
    unfold Terms.toExpr
    split
    · exact ⟨_, rfl⟩
    · dsimp only
      split <;> exact ⟨_, rfl⟩
  obtain ⟨r, hr⟩ := hnumber
  exact .of_means hr hmeans

private theorem isNumber_product (ha : a.IsNumber x) (hb : b.IsNumber y) :
    (product rationalRules [a, b]).IsNumber (x * y) := by
  obtain ⟨c, rfl, hc, rfl⟩ := ha
  obtain ⟨d, rfl, hd, rfl⟩ := hb
  exact isNumber_productN hc hd _

private theorem isNumber_power {k : ℤ} (ha : a.IsNumber x) (hb : b.IsNumber k)
    (hk : x = 0 → 0 ≤ k) : (power rationalRules a b).IsNumber (x ^ k) := by
  have hmeans : (power rationalRules a b).Means (fun _ => none) (x ^ k) := by
    have hvalued : a.Valued fun _ => none := ha.means.valued
    have hpower := means_power hvalued (hb.raises (ha.means.value_eq ▸ hk))
    rwa [ha.means.value_eq] at hpower
  obtain ⟨c, rfl, hc, rfl⟩ := ha
  obtain ⟨d, rfl, hd⟩ := hb
  obtain ⟨r, hpower, -⟩ := isNumber_numberPower hc (Constant.isInt_iff.mpr hd) hk
  have hnumber : ∃ r, power rationalRules (const c) (const d) = const r := by
    change ∃ r, powerN rationalRules (9 + 1) (const c) (const d) = const r
    unfold powerN
    split
    · exact ⟨_, rfl⟩
    split
    · exact ⟨_, rfl⟩
    split
    · exact ⟨_, rfl⟩
    split
    · exact ⟨_, rfl⟩
    split
    · rename_i heuler
      exact absurd heuler (by simp [euler])
    · exact ⟨_, hpower⟩
  obtain ⟨r, hr⟩ := hnumber
  exact .of_means hr hmeans

end Expr

/-! ### Formulas -/

namespace Formula

open FluxBalance.Equation.Expr

variable {f : Formula} {v : Rat}

/-- The exponents of a formula are integers, whatever the names stand for. -/
def IntegerPowers : Formula → Prop
  | neg a => a.IntegerPowers
  | add a b | sub a b | mul a b | div a b => a.IntegerPowers ∧ b.IntegerPowers
  | pow a b => a.IntegerPowers ∧ ∃ k : ℤ, b.value? (fun _ => none) = some (k : Rat)
  | _ => True

/-! What the operands of a formula with a value have as values. -/

/-- The opposite has a value only if its argument has one. -/
private theorem value?_neg {a : Formula} (h : (neg a).value? point = some v) :
    ∃ x, a.value? point = some x ∧ -x = v := by
  obtain ⟨x, hx, h⟩ := Option.bind_eq_some_iff.mp h
  exact ⟨x, hx, Option.some.inj h⟩

private theorem value?_add {a b : Formula} (h : (add a b).value? point = some v) :
    ∃ x y, a.value? point = some x ∧ b.value? point = some y ∧ x + y = v := by
  obtain ⟨x, hx, h⟩ := Option.bind_eq_some_iff.mp h
  obtain ⟨y, hy, h⟩ := Option.bind_eq_some_iff.mp h
  exact ⟨x, y, hx, hy, Option.some.inj h⟩

/-- A difference has a value only if both terms have one. -/
private theorem value?_sub {a b : Formula} (h : (sub a b).value? point = some v) :
    ∃ x y, a.value? point = some x ∧ b.value? point = some y ∧ x - y = v := by
  obtain ⟨x, hx, h⟩ := Option.bind_eq_some_iff.mp h
  obtain ⟨y, hy, h⟩ := Option.bind_eq_some_iff.mp h
  exact ⟨x, y, hx, hy, Option.some.inj h⟩

/-- A product has a value only if both factors have one. -/
private theorem value?_mul {a b : Formula} (h : (mul a b).value? point = some v) :
    ∃ x y, a.value? point = some x ∧ b.value? point = some y ∧ x * y = v := by
  obtain ⟨x, hx, h⟩ := Option.bind_eq_some_iff.mp h
  obtain ⟨y, hy, h⟩ := Option.bind_eq_some_iff.mp h
  exact ⟨x, y, hx, hy, Option.some.inj h⟩

/-- A quotient has a value only if both parts have one and the divisor is not zero. -/
private theorem value?_div {a b : Formula} (h : (div a b).value? point = some v) :
    ∃ x y, a.value? point = some x ∧ b.value? point = some y ∧ y ≠ 0 ∧ x / y = v := by
  obtain ⟨x, hx, h⟩ := Option.bind_eq_some_iff.mp h
  obtain ⟨y, hy, h⟩ := Option.bind_eq_some_iff.mp h
  split at h
  · cases h
  · rename_i hne
    exact ⟨x, y, hx, hy, hne, Option.some.inj h⟩

/-- A power has a value only for an integer exponent, which is not negative if the base is zero. -/
private theorem value?_pow {a b : Formula} (h : (pow a b).value? point = some v) :
    ∃ (x : Rat) (k : ℤ), a.value? point = some x ∧ b.value? point = some (k : Rat) ∧
      (x = 0 → 0 ≤ k) ∧ x ^ k = v := by
  obtain ⟨x, hx, h⟩ := Option.bind_eq_some_iff.mp h
  obtain ⟨y, hy, h⟩ := Option.bind_eq_some_iff.mp h
  split at h
  · rename_i hden
    have hint : (y.num : Rat) = y := Rat.coe_int_num_of_den_eq_one hden
    unfold integerPower at h
    split at h
    · cases h
    · rename_i hne
      refine ⟨x, y.num, hx, by rw [hint, hy], fun hzero => ?_, Option.some.inj h⟩
      exact not_lt.mp fun hneg => hne ⟨hzero, hneg⟩
  · cases h

/-- A formula that has a value without those of names has it at every point. -/
private theorem value?_of_closed : ∀ {f : Formula} {v : Rat}, f.value? (fun _ => none) = some v →
    f.value? point = some v
  | integer n, v, h => h
  | decimal m k, v, h => h
  | neg a, v, h => by
    obtain ⟨x, hx, rfl⟩ := value?_neg h
    rw [value?, value?_of_closed hx]
    rfl
  | add a b, v, h => by
    obtain ⟨x, y, hx, hy, rfl⟩ := value?_add h
    rw [value?, value?_of_closed hx, value?_of_closed hy]
    rfl
  | sub a b, v, h => by
    obtain ⟨x, y, hx, hy, rfl⟩ := value?_sub h
    rw [value?, value?_of_closed hx, value?_of_closed hy]
    rfl
  | mul a b, v, h => by
    obtain ⟨x, y, hx, hy, rfl⟩ := value?_mul h
    rw [value?, value?_of_closed hx, value?_of_closed hy]
    rfl
  | div a b, v, h => by
    obtain ⟨x, hx, h⟩ := Option.bind_eq_some_iff.mp h
    obtain ⟨y, hy, h⟩ := Option.bind_eq_some_iff.mp h
    rw [value?, value?_of_closed hx, value?_of_closed hy]
    exact h
  | pow a b, v, h => by
    obtain ⟨x, hx, h⟩ := Option.bind_eq_some_iff.mp h
    obtain ⟨y, hy, h⟩ := Option.bind_eq_some_iff.mp h
    rw [value?, value?_of_closed hx, value?_of_closed hy]
    exact h

/-- **A formula without names that has a value simplifies to that number.** -/
theorem isNumber_simplify : ∀ {f : Formula} {v : Rat}, f.value? (fun _ => none) = some v →
    ∃ e, f.simplify rationalRules = .ok e ∧ e.IsNumber v
  | integer n, v, h => by
    obtain rfl := Option.some.inj h
    exact ⟨_, by rw [simplify], _, rfl, rfl, rfl⟩
  | decimal m k, v, h => by
    obtain rfl := Option.some.inj h
    exact ⟨_, by rw [simplify], _, rfl, rfl, rfl⟩
  | neg a, v, h => by
    obtain ⟨x, hx, rfl⟩ := value?_neg h
    obtain ⟨e, he, hnumber⟩ := isNumber_simplify hx
    refine ⟨_, by rw [simplify, he]; rfl, ?_⟩
    rw [← neg_one_mul]
    exact isNumber_product ⟨.minusOne, rfl, rfl, rfl⟩ hnumber
  | add a b, v, h => by
    obtain ⟨x, y, hx, hy, rfl⟩ := value?_add h
    obtain ⟨d, hd, ha⟩ := isNumber_simplify hx
    obtain ⟨e, he, hb⟩ := isNumber_simplify hy
    exact ⟨_, by rw [simplify, hd, he]; rfl, isNumber_sum ha hb⟩
  | sub a b, v, h => by
    obtain ⟨x, y, hx, hy, rfl⟩ := value?_sub h
    obtain ⟨d, hd, ha⟩ := isNumber_simplify hx
    obtain ⟨e, he, hb⟩ := isNumber_simplify hy
    refine ⟨_, by rw [simplify, hd, he]; rfl, ?_⟩
    -- A difference is simplified as a sum with a product by minus one.
    rw [sub_eq_add_neg, ← neg_one_mul y]
    exact isNumber_sum ha (isNumber_product ⟨.minusOne, rfl, rfl, rfl⟩ hb)
  | mul a b, v, h => by
    obtain ⟨x, y, hx, hy, rfl⟩ := value?_mul h
    obtain ⟨d, hd, ha⟩ := isNumber_simplify hx
    obtain ⟨e, he, hb⟩ := isNumber_simplify hy
    exact ⟨_, by rw [simplify, hd, he]; rfl, isNumber_product ha hb⟩
  | div a b, v, h => by
    obtain ⟨x, y, hx, hy, hne, rfl⟩ := value?_div h
    obtain ⟨d, hd, ha⟩ := isNumber_simplify hx
    obtain ⟨e, he, hb⟩ := isNumber_simplify hy
    refine ⟨_, by rw [simplify, hd, he]; rfl, ?_⟩
    rw [div_eq_mul_inv, ← zpow_neg_one]
    exact isNumber_product ha (isNumber_power (k := -1) hb ⟨.minusOne, rfl, rfl, rfl⟩
      fun hzero => absurd hzero hne)
  | pow a b, v, h => by
    obtain ⟨x, k, hx, hk, hnonneg, rfl⟩ := value?_pow h
    obtain ⟨d, hd, ha⟩ := isNumber_simplify hx
    obtain ⟨e, he, hb⟩ := isNumber_simplify hk
    exact ⟨_, by rw [simplify, hd, he]; rfl, isNumber_power ha hb hnonneg⟩

/-- **Simplification preserves the value of a formula.** -/
theorem means_simplify : ∀ {f : Formula} {v : Rat}, f.IntegerPowers → f.value? point = some v →
    ∃ e, f.simplify rationalRules = .ok e ∧ e.Means point v
  | integer n, v, _, h => by
    obtain rfl := Option.some.inj h
    exact ⟨.const (.exact n), by rw [simplify], rfl, rfl⟩
  | decimal m k, v, _, h => by
    obtain rfl := Option.some.inj h
    exact ⟨.const (decimalConstant rationalRules m k), by rw [simplify], rfl, rfl⟩
  | name n, v, _, h => by
    have hpoint : point n = some v := h
    refine ⟨.var n, by rw [simplify], Option.isSome_of_eq_some hpoint, ?_⟩
    rw [value, hpoint, Option.getD_some]
  | neg a, v, hf, h => by
    obtain ⟨x, hx, rfl⟩ := value?_neg h
    obtain ⟨e, he, hmeans⟩ := means_simplify (f := a) hf hx
    exact ⟨_, by rw [simplify, he]; rfl, means_opposite hmeans⟩
  | add a b, v, ⟨hf, hg⟩, h => by
    obtain ⟨x, y, hx, hy, rfl⟩ := value?_add h
    obtain ⟨d, hd, ha⟩ := means_simplify hf hx
    obtain ⟨e, he, hb⟩ := means_simplify hg hy
    exact ⟨_, by rw [simplify, hd, he]; rfl, means_sum_pair ha hb⟩
  | sub a b, v, ⟨hf, hg⟩, h => by
    obtain ⟨x, y, hx, hy, rfl⟩ := value?_sub h
    obtain ⟨d, hd, ha⟩ := means_simplify hf hx
    obtain ⟨e, he, hb⟩ := means_simplify hg hy
    refine ⟨_, by rw [simplify, hd, he]; rfl, ?_⟩
    rw [sub_eq_add_neg]
    exact means_sum_pair ha (means_opposite hb)
  | mul a b, v, ⟨hf, hg⟩, h => by
    obtain ⟨x, y, hx, hy, rfl⟩ := value?_mul h
    obtain ⟨d, hd, ha⟩ := means_simplify hf hx
    obtain ⟨e, he, hb⟩ := means_simplify hg hy
    exact ⟨_, by rw [simplify, hd, he]; rfl, means_product_pair ha hb⟩
  | div a b, v, ⟨hf, hg⟩, h => by
    obtain ⟨x, y, hx, hy, hne, rfl⟩ := value?_div h
    obtain ⟨d, hd, ha⟩ := means_simplify hf hx
    obtain ⟨e, he, hb⟩ := means_simplify hg hy
    exact ⟨_, by rw [simplify, hd, he]; rfl, means_quotient ha hb hne⟩
  | pow a b, v, ⟨hf, k, hk⟩, h => by
    obtain ⟨x, l, hx, hl, hnonneg, rfl⟩ := value?_pow h
    obtain ⟨d, hd, ha⟩ := means_simplify hf hx
    -- The exponent has no names, so it simplifies to a number and not merely to an expression.
    obtain ⟨e, he, hb⟩ := isNumber_simplify hk
    obtain rfl : k = l := Int.cast_injective
      (Option.some.inj ((value?_of_closed hk).symm.trans hl))
    have hpower := means_power ha.valued (hb.raises (ha.value_eq ▸ hnonneg))
    rw [ha.value_eq] at hpower
    exact ⟨_, by rw [simplify, hd, he]; rfl, hpower⟩

end Formula

end FluxBalance.Equation
