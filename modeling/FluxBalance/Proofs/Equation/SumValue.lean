import FluxBalance.Proofs.Equation.Value
import Mathlib.Algebra.BigOperators.Ring.List

/-!
# Collecting a sum preserves its value

A term is taken apart into its coefficient and the rest, equal terms are put together by adding
their coefficients, and terms with coefficient zero are left out. Over the rationals none of this
changes the value of a sum. A multiple of an expression is formed term by term, which is the
distributive law.

## Main definitions and results

* `Terms.Means`: a collection of terms stands for a sum with the value;
* `means_sum`, `means_scale`: sums and multiples have the sum and the multiple for their value.
-/

namespace FluxBalance.Equation.Expr

variable {point : String → Option Rat} {e : Expr Constant} {es : List (Expr Constant)}
  {c : Constant}

/-! ### Coefficients -/

/-- A term is the product of its coefficient and the rest. -/
theorem means_coefficient (h : e.Valued point) :
    e.coefficient.1.isFinite = true ∧ e.coefficient.2.Valued point ∧
      e.value point = e.coefficient.1.value * e.coefficient.2.value point := by
  have hfactors := valued_of_factors.mpr h
  have hprod : (e.factors.map (value point)).prod = e.value point := prod_factors e
  unfold coefficient
  split
  · rename_i c hparts
    rw [hparts] at hfactors hprod
    rw [List.map_singleton, List.prod_singleton] at hprod
    exact ⟨hfactors _ List.mem_cons_self, rfl, by rw [← hprod]; exact (mul_one _).symm⟩
  · rename_i c rest _ hparts
    rw [hparts] at hfactors hprod
    obtain ⟨hc, hrest⟩ := List.forall_mem_cons.mp hfactors
    obtain ⟨hvalued, hvalue⟩ := means_nestProduct hrest
    exact ⟨hc, hvalued, by rw [← hprod, List.map_cons, List.prod_cons, hvalue, value_const]⟩
  · exact ⟨rfl, h, (one_mul _).symm⟩

theorem means_withCoefficient (hc : c.isFinite = true) (h : e.Valued point) :
    (withCoefficient c e).Means point (c.value * e.value point) := by
  unfold withCoefficient
  split
  · rename_i hone
    exact ⟨h, by rw [hone]; exact (one_mul _).symm⟩
  split
  · rename_i hundefined
    exact absurd hundefined (Constant.ne_undefined hc)
  split
  · rename_i hone
    exact ⟨hc, by rw [hone]; exact (mul_one _).symm⟩
  · rw [nestProduct_cons _ _ (const .one), ← prod_factors e]
    exact means_nestProduct (List.forall_mem_cons.mpr ⟨hc, valued_of_factors.mpr h⟩)

/-! ### Collection -/

/-- The terms of a collection have values. -/
def TermsValued (point : String → Option Rat) (ts : List (Expr Constant × Constant)) : Prop :=
  ∀ t ∈ ts, t.1.Valued point ∧ t.2.isFinite = true

/-- The sum of the terms of a collection. -/
def termsValue (point : String → Option Rat) (ts : List (Expr Constant × Constant)) : Rat :=
  (ts.map fun t => t.2.value * t.1.value point).sum

/-- A term contributes its coefficient times its value. -/
private theorem termsValue_cons (t : Expr Constant × Constant)
    (ts : List (Expr Constant × Constant)) :
    termsValue point (t :: ts) = t.2.value * t.1.value point + termsValue point ts := List.sum_cons

private theorem means_insertTerm (he : e.Valued point) (hc : c.isFinite = true) :
    ∀ {ts : List (Expr Constant × Constant)}, TermsValued point ts →
      TermsValued point (insertTerm rationalRules.round e c ts) ∧
        termsValue point (insertTerm rationalRules.round e c ts) =
          termsValue point ts + c.value * e.value point
  | [], _ => by
    refine ⟨List.forall_mem_singleton.mpr ⟨he, hc⟩, ?_⟩
    rw [insertTerm, termsValue_cons]
    exact add_comm _ _
  | (d, k) :: ts, hts => by
    obtain ⟨⟨hd, hk⟩, hts⟩ := List.forall_mem_cons.mp hts
    unfold insertTerm
    split
    · rename_i hsame
      obtain ⟨hfinite, hvalue⟩ := Constant.add_finite hk hc
      refine ⟨List.forall_mem_cons.mpr ⟨⟨hd, hfinite⟩, hts⟩, ?_⟩
      rw [termsValue_cons, termsValue_cons, hvalue, hsame]
      ring
    · obtain ⟨hvalued, hvalue⟩ := means_insertTerm he hc hts
      refine ⟨List.forall_mem_cons.mpr ⟨⟨hd, hk⟩, hvalued⟩, ?_⟩
      rw [termsValue_cons, termsValue_cons, hvalue, add_assoc]

/-- The collection stands for a sum with the value. -/
structure Terms.Means (point : String → Option Rat) (t : Terms) (x : Rat) : Prop where
  total : t.total.isFinite = true
  terms : TermsValued point t.terms
  value_eq : t.total.value + termsValue point t.terms = x

private theorem means_terms_insert {t : Terms} {x : Rat} (ht : t.Means point x)
    (h : e.Valued point) : (t.insert rationalRules.round e).Means point (x + e.value point) := by
  obtain ⟨htotal, hterms, hvalue⟩ := ht
  unfold Terms.insert
  split
  · rename_i c
    obtain ⟨hfinite, hsum⟩ := Constant.add_finite htotal (valued_const.mp h)
    refine ⟨hfinite, hterms, ?_⟩
    rw [hsum, value_const, ← hvalue]
    ring
  · obtain ⟨hc, hrest, hproduct⟩ := means_coefficient h
    obtain ⟨hvalued, hsum⟩ := means_insertTerm hrest hc hterms
    refine ⟨htotal, hvalued, ?_⟩
    rw [hsum, ← hvalue, hproduct, add_assoc]

theorem valued_of_mem_arrange (h : ∀ e ∈ es, e.Valued point) : ∀ e ∈ arrange es, e.Valued point :=
  fun e he => h e ((arrange_perm es).mem_iff.mp he)

/-- Terms with coefficient zero do not count. -/
private theorem sum_kept : ∀ {ts : List (Expr Constant × Constant)}, TermsValued point ts →
    (((ts.filter fun t => !t.2.isZero).map fun t => withCoefficient t.2 t.1).map
      (value point)).sum = termsValue point ts
  | [], _ => rfl
  | (d, k) :: ts, hts => by
    obtain ⟨⟨hd, hk⟩, hts⟩ := List.forall_mem_cons.mp hts
    have hrest := sum_kept hts
    rw [termsValue_cons]
    by_cases hzero : k.isZero = true
    · rw [List.filter_cons_of_neg (by simpa using hzero), hrest,
        (Constant.isZero_iff hk).mp hzero, zero_mul, zero_add]
    · rw [List.filter_cons_of_pos (by simpa using hzero), List.map_cons, List.map_cons,
        List.sum_cons, hrest, (means_withCoefficient hk hd).value_eq]

/-- The expression of collected terms has their sum for its value. -/
private theorem means_toExpr {t : Terms} {x : Rat} (ht : t.Means point x) :
    t.toExpr.Means point x := by
  obtain ⟨htotal, hterms, hvalue⟩ := ht
  have hparts : ∀ e ∈ arrange ((t.terms.filter fun t => !t.2.isZero).map fun t =>
      withCoefficient t.2 t.1), e.Valued point := by
    refine valued_of_mem_arrange fun e he => ?_
    obtain ⟨p, hp, rfl⟩ := List.mem_map.mp he
    obtain ⟨hd, hk⟩ := hterms p (List.mem_filter.mp hp).1
    exact (means_withCoefficient hk hd).valued
  have hsum := ((arrange_perm ((t.terms.filter fun t => !t.2.isZero).map fun t =>
    withCoefficient t.2 t.1)).map (value point)).sum_eq
  rw [sum_kept hterms] at hsum
  unfold Terms.toExpr
  rw [if_neg (Constant.ne_undefined htotal)]
  dsimp only
  split
  · rename_i hzero
    obtain ⟨hvalued, hnested⟩ := means_nestSum hparts
    refine ⟨hvalued, ?_⟩
    rw [hnested, hsum, ← hvalue, hzero]
    exact (zero_add _).symm
  · rw [nestSum_cons _ _ (const .zero)]
    obtain ⟨hvalued, hnested⟩ := means_nestSum
      (List.forall_mem_cons.mpr ⟨valued_const.mpr htotal, hparts⟩)
    refine ⟨hvalued, ?_⟩
    rw [hnested, List.map_cons, List.sum_cons, hsum, ← hvalue]
    rfl

/-- **Sums have the sum of the values of their parts.** -/
theorem means_sum (h : ∀ e ∈ es, e.Valued point) :
    (sum rationalRules.round es).Means point (es.map (value point)).sum := by
  -- The induction is on the parts that are left, for whatever has been collected so far.
  have key : ∀ (ps : List (Expr Constant)) (t : Terms) (x : Rat), (∀ p ∈ ps, p.Valued point) →
      t.Means point x → (ps.foldl (Terms.insert rationalRules.round) t).Means point
        (x + (ps.map (value point)).sum) := by
    intro ps
    induction ps with
    | nil =>
      intro t x _ ht
      rw [List.map_nil, List.sum_nil, add_zero]
      exact ht
    | cons p ps ih =>
      intro t x hps ht
      obtain ⟨hp, hps⟩ := List.forall_mem_cons.mp hps
      rw [List.map_cons, List.sum_cons, ← add_assoc]
      exact ih _ _ hps (means_terms_insert ht hp)
  have hempty : (⟨.zero, []⟩ : Terms).Means point 0 := ⟨rfl, List.forall_mem_nil _, add_zero _⟩
  have hparts : ∀ p ∈ es.flatMap addends, p.Valued point := fun p hp => by
    obtain ⟨e, he, hp⟩ := List.mem_flatMap.mp hp
    exact valued_of_addends.mpr (h e he) p hp
  have hsum : ((es.flatMap addends).map (value point)).sum = (es.map (value point)).sum := by
    rw [List.map_flatMap, List.flatMap_def, List.sum_flatten, List.map_map]
    exact congrArg List.sum (List.map_congr_left fun e _ => sum_addends e)
  have hmeans := means_toExpr (key _ _ _ hparts hempty)
  rwa [zero_add, hsum] at hmeans

/-! ### Multiples -/

private theorem means_scaleTerm (hc : c.isFinite = true) (h : e.Valued point) :
    (scaleTerm rationalRules.round c e).Means point (c.value * e.value point) := by
  unfold scaleTerm
  split
  · obtain ⟨hfinite, hvalue⟩ := Constant.mul_finite hc (valued_const.mp h)
    exact ⟨hfinite, hvalue⟩
  · obtain ⟨hd, hrest, hproduct⟩ := means_coefficient h
    obtain ⟨hfinite, hvalue⟩ := Constant.mul_finite hc hd
    rw [hproduct, ← mul_assoc, ← hvalue]
    dsimp only
    split
    · rename_i hzero
      exact ⟨rfl, by rw [(Constant.isZero_iff hfinite).mp hzero, zero_mul]; rfl⟩
    · exact means_withCoefficient hfinite hrest

/-- **Multiples have the multiple of the value.** -/
theorem means_scale (hc : c.isFinite = true) (h : e.Valued point) :
    (scale rationalRules.round c e).Means point (c.value * e.value point) := by
  have haddends := valued_of_addends.mpr h
  have hsum : (e.addends.map (value point)).sum = e.value point := sum_addends e
  unfold scale
  split
  · rename_i p hp
    rw [hp] at haddends hsum
    rw [← hsum, List.map_singleton, List.sum_singleton]
    exact means_scaleTerm hc (haddends p List.mem_cons_self)
  · have hterms : ∀ d ∈ e.addends.map (scaleTerm rationalRules.round c), d.Valued point := by
      intro d hd
      obtain ⟨p, hp, rfl⟩ := List.mem_map.mp hd
      exact (means_scaleTerm hc (haddends p hp)).valued
    obtain ⟨hvalued, hvalue⟩ := means_sum hterms
    refine ⟨hvalued, ?_⟩
    rw [hvalue, ← hsum, List.map_map, ← List.sum_map_mul_left]
    exact congrArg List.sum (List.map_congr_left fun p hp =>
      (means_scaleTerm hc (haddends p hp)).value_eq)

end FluxBalance.Equation.Expr
