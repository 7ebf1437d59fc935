import FluxBalance.Proofs.Equation.ProductValue

/-!
# Substitution preserves values

An expression whose names are replaced by their values keeps its value: what has not changed is
left alone, and what has changed is put together again by the same sums, products and powers that
simplify a formula. A sum or a product is put together only when it is complete, so the invariant
of the rebuilding is the value of the parts.

## Main definitions and results

* `Rebuilt.Means`, `means_rebuild`: putting in the value of a name for the name does not change a
  value.
-/

namespace FluxBalance.Equation.Expr

variable {point : String → Option Rat} {a b e : Expr Constant} {x y : Rat}

/-- What has been rebuilt of an expression has the value, put together or not. -/
def Rebuilt.Means (point : String → Option Rat) (x : Rat) : Rebuilt → Prop
  | .unchanged e | .single e => e.Means point x
  | .addends es => (∀ e ∈ es, e.Valued point) ∧ (es.map (value point)).sum = x
  | .factors es => (∀ e ∈ es, e.Valued point) ∧ (es.map (value point)).prod = x

private theorem means_rebuilt_expr {r : Rebuilt} (h : r.Means point x) :
    (r.expr rationalRules).Means point x := by
  cases r with
  | unchanged e => exact h
  | single e => exact h
  | addends es =>
    obtain ⟨hvalued, rfl⟩ := h
    exact means_sum hvalued
  | factors es =>
    obtain ⟨hvalued, rfl⟩ := h
    exact means_product hvalued

private theorem means_asAddends {r : Rebuilt} (h : r.Means point x) :
    (∀ e ∈ r.asAddends rationalRules, e.Valued point) ∧
      ((r.asAddends rationalRules).map (value point)).sum = x := by
  cases r with
  | addends es => exact h
  | unchanged e | single e =>
    exact ⟨List.forall_mem_singleton.mpr h.valued, List.sum_singleton.trans h.value_eq⟩
  | factors es =>
    have hmeans := means_rebuilt_expr h
    exact ⟨List.forall_mem_singleton.mpr hmeans.valued, List.sum_singleton.trans hmeans.value_eq⟩

private theorem means_asFactors {r : Rebuilt} (h : r.Means point x) :
    (∀ e ∈ r.asFactors rationalRules, e.Valued point) ∧
      ((r.asFactors rationalRules).map (value point)).prod = x := by
  cases r with
  | factors es => exact h
  | unchanged e | single e =>
    exact ⟨List.forall_mem_singleton.mpr h.valued, List.prod_singleton.trans h.value_eq⟩
  | addends es =>
    have hmeans := means_rebuilt_expr h
    exact ⟨List.forall_mem_singleton.mpr hmeans.valued, List.prod_singleton.trans hmeans.value_eq⟩

/-- **Putting in the value of a name for the name does not change a value.** -/
theorem means_rebuild {name : String} {c : Constant} (hc : c.isFinite = true)
    (hpoint : point name = some c.value) : ∀ {e : Expr Constant}, e.Valued point →
      ∃ r, rebuild rationalRules name c e = .ok r ∧ r.Means point (e.value point)
  | const d, h => ⟨_, rfl, h, rfl⟩
  | var n, h => by
    unfold rebuild
    split
    · rename_i hname
      refine ⟨_, rfl, hc, ?_⟩
      rw [value, value, hname, hpoint, Option.getD_some]
    · exact ⟨_, rfl, h, rfl⟩
  | add a b, h => by
    obtain ⟨x, hx, ha⟩ := means_rebuild hc hpoint (valued_add.mp h).1
    obtain ⟨y, hy, hb⟩ := means_rebuild hc hpoint (valued_add.mp h).2
    rw [rebuild, hx, hy]
    simp only [bind, Except.bind]
    split
    · exact ⟨_, rfl, h, rfl⟩
    · -- Something has changed, so the addends of both parts are collected anew.
      obtain ⟨hxs, hxvalue⟩ := means_asAddends ha
      obtain ⟨hys, hyvalue⟩ := means_asAddends hb
      refine ⟨_, rfl, List.forall_mem_append.mpr ⟨hxs, hys⟩, ?_⟩
      rw [List.map_append, List.sum_append, hxvalue, hyvalue, value_add]
  | mul a b, h => by
    obtain ⟨x, hx, ha⟩ := means_rebuild hc hpoint (valued_mul.mp h).1
    obtain ⟨y, hy, hb⟩ := means_rebuild hc hpoint (valued_mul.mp h).2
    rw [rebuild, hx, hy]
    simp only [bind, Except.bind]
    split
    · exact ⟨_, rfl, h, rfl⟩
    · obtain ⟨hxs, hxvalue⟩ := means_asFactors ha
      obtain ⟨hys, hyvalue⟩ := means_asFactors hb
      refine ⟨_, rfl, List.forall_mem_append.mpr ⟨hxs, hys⟩, ?_⟩
      rw [List.map_append, List.prod_append, hxvalue, hyvalue, value_mul]
  | pow a b, h => by
    obtain ⟨hbase, k, hraises⟩ := valued_pow.mp h
    obtain ⟨x, hx, ha⟩ := means_rebuild hc hpoint hbase
    have ha := means_rebuilt_expr ha
    rw [value_pow hraises]
    obtain ⟨⟨d, rfl, hd⟩, hk⟩ := hraises
    rw [rebuild, hx]
    simp only [bind, Except.bind, rebuild]
    split
    · exact ⟨_, rfl, means_pow hbase ⟨⟨d, rfl, hd⟩, hk⟩⟩
    · -- The base has changed but not its value, so the exponent may raise it as before.
      rw [← ha.value_eq] at hk ⊢
      exact ⟨_, rfl, means_power ha.valued ⟨⟨d, rfl, hd⟩, hk⟩⟩

/-- Putting in values that a point has keeps the value at this point. -/
theorem means_replaceVars {constants : List (String × Constant)}
    (h : ∀ p ∈ constants, p.2.isFinite = true ∧ point p.1 = some p.2.value) :
    ∀ {e : Expr Constant}, e.Means point x →
      ∃ r, e.replaceVars rationalRules constants = .ok r ∧ r.Means point x := by
  induction constants with
  | nil => exact fun {e} he => ⟨e, rfl, he⟩
  | cons p constants ih =>
    intro e he
    obtain ⟨⟨hc, hpoint⟩, h⟩ := List.forall_mem_cons.mp h
    obtain ⟨r, hr, hmeans⟩ := means_rebuild hc hpoint he.valued
    rw [he.value_eq] at hmeans
    obtain ⟨d, hd, hrest⟩ := ih h (means_rebuilt_expr hmeans)
    refine ⟨d, ?_, hrest⟩
    rw [replaceVars, List.foldlM_cons, replaceVar, hr]
    exact hd

end FluxBalance.Equation.Expr
