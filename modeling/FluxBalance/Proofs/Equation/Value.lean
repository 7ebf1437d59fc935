import FluxBalance.Equation.Formula
import Mathlib.Algebra.BigOperators.Group.List.Basic
import Mathlib.Algebra.Order.Field.Rat
import Mathlib.Data.Rat.Cast.Defs
import Mathlib.Tactic.Ring

/-!
# Values of expressions over the rationals

With nothing rounded, an expression that is made of numbers and names by sums, products and integer
powers has a rational value at every point where its names have values and no power divides by zero.
`Expr.value` is that value, and `Expr.Valued` says that there is one. The exponents of such an
expression are numbers, so whether it has a value is decided by the values of its bases.

The values of a sum and of a product are the sum and the product of the values of their parts,
however these are nested.

## Main definitions and results

* `value`, `Valued`: the value of an expression at a point, and that there is one;
* `Means`: both in one: the expression has the value;
* `Raises`: an exponent that has a value with a base.
-/

namespace FluxBalance.Equation

/-! ### Constants -/

namespace Constant

/-- The value of a finite constant. -/
def value (c : Constant) : Rat := c.toRat?.getD 0

variable {c d : Constant}

theorem isFinite_iff : c.isFinite = true ↔ c.toRat? = some c.value := by
  cases c <;> simp [isFinite, toRat?, value]

/-- A constant that is a rational is finite, and this is its `value`. -/
theorem of_toRat? {q : Rat} (h : c.toRat? = some q) : c.isFinite = true ∧ c.value = q := by
  simp [isFinite, value, h]

@[simp] theorem isFinite_exact (q : Rat) : (exact q).isFinite = true := rfl

@[simp] theorem value_exact (q : Rat) : (exact q).value = q := rfl

@[simp] theorem isFinite_decimal (q : Rat) : (decimal q).isFinite = true := rfl

@[simp] theorem value_decimal (q : Rat) : (decimal q).value = q := rfl

theorem ofDecimal_finite (q : Rat) :
    (ofDecimal rationalRules.round q).isFinite = true ∧
      (ofDecimal rationalRules.round q).value = q := by
  unfold ofDecimal rationalRules
  dsimp only
  split
  · rename_i h
    exact ⟨rfl, h.symm⟩
  · exact ⟨rfl, rfl⟩

/-- An operation on finite constants has their values as operands. -/
theorem combine_finite (op : Rat → Rat → Rat) (hc : c.isFinite = true) (hd : d.isFinite = true) :
    ∃ k, combine rationalRules.round op c d = some k ∧ k.isFinite = true ∧
      k.value = op c.value d.value := by
  cases c <;> cases hc <;> cases d <;> cases hd
  · exact ⟨_, rfl, rfl, rfl⟩
  all_goals exact ⟨_, rfl, ofDecimal_finite _⟩

theorem add_finite (hc : c.isFinite = true) (hd : d.isFinite = true) :
    (c.add rationalRules.round d).isFinite = true ∧
      (c.add rationalRules.round d).value = c.value + d.value := by
  obtain ⟨k, hk, hfinite, hvalue⟩ := combine_finite (· + ·) hc hd
  unfold add
  rw [hk]
  exact ⟨hfinite, hvalue⟩

/-- Products of finite constants are finite and exact. -/
theorem mul_finite (hc : c.isFinite = true) (hd : d.isFinite = true) :
    (c.mul rationalRules.round d).isFinite = true ∧
      (c.mul rationalRules.round d).value = c.value * d.value := by
  obtain ⟨k, hk, hfinite, hvalue⟩ := combine_finite (· * ·) hc hd
  unfold mul
  rw [hk]
  exact ⟨hfinite, hvalue⟩

/-- Opposites of finite constants are finite and exact. -/
theorem neg_finite (hc : c.isFinite = true) : c.neg.isFinite = true ∧ c.neg.value = -c.value := by
  cases c <;> cases hc <;> exact ⟨rfl, rfl⟩

/-- Magnitudes of finite constants are finite and exact. -/
theorem abs_finite (hc : c.isFinite = true) : c.abs.isFinite = true ∧ c.abs.value = |c.value| := by
  cases c <;> cases hc
  all_goals
    refine ⟨rfl, ?_⟩
    rename_i q
    change (if q < 0 then -q else q) = |q|
    split
    · rename_i h
      rw [abs_of_neg h]
    · rename_i h
      rw [abs_of_nonneg (not_lt.mp h)]

theorem isZero_iff (hc : c.isFinite = true) : c.isZero = true ↔ c.value = 0 := by
  rw [isZero, isFinite_iff.mp hc, beq_iff_eq, Option.some.injEq]

theorem ne_undefined (hc : c.isFinite = true) : c ≠ .undefined := by
  rintro rfl
  cases hc

/-- The constant is the given integer. -/
def IsInt (c : Constant) (k : ℤ) : Prop := c.toRat? = some (k : Rat)

theorem IsInt.finite {k : ℤ} (h : c.IsInt k) : c.isFinite = true := (of_toRat? h).1

theorem IsInt.value_eq {k : ℤ} (h : c.IsInt k) : c.value = k := (of_toRat? h).2

/-- An integer is a finite constant with an integer `value`. -/
theorem isInt_iff {k : ℤ} : c.IsInt k ↔ c.isFinite = true ∧ c.value = k := by
  refine ⟨of_toRat?, fun ⟨hfinite, hvalue⟩ => ?_⟩
  rw [IsInt, isFinite_iff.mp hfinite, hvalue]

theorem isInt_one : one.IsInt 1 := rfl

theorem IsInt.add {k l : ℤ} (hc : c.IsInt k) (hd : d.IsInt l) :
    (c.add rationalRules.round d).IsInt (k + l) := by
  obtain ⟨hfinite, hvalue⟩ := add_finite hc.finite hd.finite
  exact isInt_iff.mpr ⟨hfinite, by rw [hvalue, hc.value_eq, hd.value_eq, Int.cast_add]⟩

theorem IsInt.mul {k l : ℤ} (hc : c.IsInt k) (hd : d.IsInt l) :
    (c.mul rationalRules.round d).IsInt (k * l) := by
  obtain ⟨hfinite, hvalue⟩ := mul_finite hc.finite hd.finite
  exact isInt_iff.mpr ⟨hfinite, by rw [hvalue, hc.value_eq, hd.value_eq, Int.cast_mul]⟩

theorem IsInt.neg {k : ℤ} (hc : c.IsInt k) : c.neg.IsInt (-k) := by
  obtain ⟨hfinite, hvalue⟩ := neg_finite hc.finite
  exact isInt_iff.mpr ⟨hfinite, by rw [hvalue, hc.value_eq, Int.cast_neg]⟩

end Constant

/-! ### Expressions -/

namespace Expr

variable {point : String → Option Rat} {a b e : Expr Constant} {es : List (Expr Constant)}

/-- The value of an expression; what is no sum, product or power counts as zero. -/
def value (point : String → Option Rat) : Expr Constant → Rat
  | const c => c.value
  | var n => (point n).getD 0
  | add a b => a.value point + b.value point
  | mul a b => a.value point * b.value point
  | pow b e => b.value point ^ (e.value point).num
  | _ => 0

/-- The exponent is an integer, and it is not negative if the base is zero. -/
def Raises (e : Expr Constant) (x : Rat) (k : ℤ) : Prop :=
  (∃ c, e = const c ∧ c.IsInt k) ∧ (x = 0 → 0 ≤ k)

/-- The expression has a value. -/
def Valued (point : String → Option Rat) : Expr Constant → Prop
  | const c => c.isFinite = true
  | var n => (point n).isSome = true
  | add a b | mul a b => a.Valued point ∧ b.Valued point
  | pow b e => b.Valued point ∧ ∃ k, e.Raises (b.value point) k
  | _ => False

@[simp] theorem value_const (c : Constant) : (const c).value point = c.value := rfl

@[simp] theorem value_add : (add a b).value point = a.value point + b.value point := rfl

@[simp] theorem value_mul : (mul a b).value point = a.value point * b.value point := rfl

@[simp] theorem valued_const {c : Constant} :
    (const c).Valued point ↔ c.isFinite = true := Iff.rfl

@[simp] theorem valued_add : (add a b).Valued point ↔ a.Valued point ∧ b.Valued point := Iff.rfl

@[simp] theorem valued_mul : (mul a b).Valued point ↔ a.Valued point ∧ b.Valued point := Iff.rfl

/-- A power has a value if its base has one and its exponent `Raises` it. -/
theorem valued_pow : (pow b e).Valued point ↔
    b.Valued point ∧ ∃ k, e.Raises (b.value point) k := Iff.rfl

/-- The exponent that `Raises` a base is the integer. -/
theorem Raises.value_eq {x : Rat} {k : ℤ} (h : e.Raises x k) : e.value point = k := by
  obtain ⟨⟨c, rfl, hc⟩, -⟩ := h
  exact hc.value_eq

/-- The exponent that `Raises` a base has a value. -/
theorem Raises.valued {x : Rat} {k : ℤ} (h : e.Raises x k) : e.Valued point := by
  obtain ⟨⟨c, rfl, hc⟩, -⟩ := h
  exact hc.finite

theorem value_pow {k : ℤ} (h : e.Raises (b.value point) k) :
    (pow b e).value point = b.value point ^ k := by
  rw [value, h.value_eq, Rat.num_intCast]

/-- The expression has the value. -/
structure Means (point : String → Option Rat) (e : Expr Constant) (x : Rat) : Prop where
  valued : e.Valued point
  value_eq : e.value point = x

/-- The expression is a number. -/
def IsNumber (e : Expr Constant) (x : Rat) : Prop :=
  ∃ c : Constant, e = const c ∧ c.isFinite = true ∧ c.value = x

theorem IsNumber.means {x : Rat} (h : e.IsNumber x) : e.Means point x := by
  obtain ⟨c, rfl, hfinite, hvalue⟩ := h
  exact ⟨hfinite, hvalue⟩

/-- An integer `Raises` every base that it does not divide by. -/
theorem IsNumber.raises {x : Rat} {k : ℤ} (h : e.IsNumber k) (hk : x = 0 → 0 ≤ k) :
    e.Raises x k := by
  obtain ⟨c, rfl, hc⟩ := h
  exact ⟨⟨c, rfl, Constant.isInt_iff.mpr hc⟩, hk⟩

/-- A power with such an exponent has the power for its value. -/
theorem means_pow (hb : b.Valued point) {k : ℤ} (h : e.Raises (b.value point) k) :
    (pow b e).Means point (b.value point ^ k) :=
  ⟨⟨hb, k, h⟩, value_pow h⟩

/-! ### Parts -/

theorem valued_of_addends : ∀ {e : Expr Constant},
    (∀ p ∈ e.addends, p.Valued point) ↔ e.Valued point
  | add a b => by
    rw [addends, List.forall_mem_append, valued_of_addends, valued_of_addends, valued_add]
  | const _ | var _ | mul .. | pow .. | apply .. | apply₂ .. | unknown _ | applied .. =>
    List.forall_mem_singleton

theorem valued_of_factors : ∀ {e : Expr Constant},
    (∀ p ∈ e.factors, p.Valued point) ↔ e.Valued point
  | mul a b => by
    rw [factors, List.forall_mem_append, valued_of_factors, valued_of_factors, valued_mul]
  | const _ | var _ | add .. | pow .. | apply .. | apply₂ .. | unknown _ | applied .. =>
    List.forall_mem_singleton

theorem sum_addends : ∀ e : Expr Constant, (e.addends.map (value point)).sum = e.value point
  | add a b => by
    rw [addends, List.map_append, List.sum_append, sum_addends, sum_addends, value_add]
  | const _ | var _ | mul .. | pow .. | apply .. | apply₂ .. | unknown _ | applied .. =>
    List.sum_singleton

theorem prod_factors : ∀ e : Expr Constant, (e.factors.map (value point)).prod = e.value point
  | mul a b => by
    rw [factors, List.map_append, List.prod_append, prod_factors, prod_factors, value_mul]
  | const _ | var _ | add .. | pow .. | apply .. | apply₂ .. | unknown _ | applied .. =>
    List.prod_singleton

/-- A sum of parts that have values has their sum as its value. -/
theorem means_nestSum (h : ∀ e ∈ es, e.Valued point) :
    (nestSum (const .zero) es).Means point (es.map (value point)).sum := by
  have key : ∀ (es : List (Expr Constant)) (a : Expr Constant), a.Valued point →
      (∀ e ∈ es, e.Valued point) →
      (es.foldl add a).Means point (a.value point + (es.map (value point)).sum) := by
    intro es
    induction es with
    | nil =>
      intro a ha _
      exact ⟨ha, (add_zero _).symm⟩
    | cons e es ih =>
      intro a ha hes
      obtain ⟨he, hes⟩ := List.forall_mem_cons.mp hes
      obtain ⟨hvalued, hvalue⟩ := ih (add a e) ⟨ha, he⟩ hes
      exact ⟨hvalued, by rw [List.foldl_cons, hvalue, value_add, List.map_cons, List.sum_cons,
        add_assoc]⟩
  cases es with
  | nil => exact ⟨rfl, rfl⟩
  | cons e es =>
    obtain ⟨he, hes⟩ := List.forall_mem_cons.mp h
    exact key es e he hes

theorem means_nestProduct (h : ∀ e ∈ es, e.Valued point) :
    (nestProduct (const .one) es).Means point (es.map (value point)).prod := by
  have key : ∀ (es : List (Expr Constant)) (a : Expr Constant), a.Valued point →
      (∀ e ∈ es, e.Valued point) →
      (es.foldl mul a).Means point (a.value point * (es.map (value point)).prod) := by
    intro es
    induction es with
    | nil =>
      intro a ha _
      exact ⟨ha, (mul_one _).symm⟩
    | cons e es ih =>
      intro a ha hes
      obtain ⟨he, hes⟩ := List.forall_mem_cons.mp hes
      obtain ⟨hvalued, hvalue⟩ := ih (mul a e) ⟨ha, he⟩ hes
      exact ⟨hvalued, by rw [List.foldl_cons, hvalue, value_mul, List.map_cons, List.prod_cons,
        mul_assoc]⟩
  cases es with
  | nil => exact ⟨rfl, rfl⟩
  | cons e es =>
    obtain ⟨he, hes⟩ := List.forall_mem_cons.mp h
    exact key es e he hes

/-- The default of a sum or of a product of some parts does not matter. -/
theorem nestSum_cons (a d d' : Expr Constant) : nestSum d (a :: es) = nestSum d' (a :: es) := rfl

/-- What `nestProduct` is given for the empty product does not matter to another one. -/
theorem nestProduct_cons (a d d' : Expr Constant) :
    nestProduct d (a :: es) = nestProduct d' (a :: es) := rfl

end Expr

end FluxBalance.Equation
