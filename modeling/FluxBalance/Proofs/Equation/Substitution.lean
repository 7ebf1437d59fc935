import FluxBalance.Equation.Expression
import FluxBalance.Proofs.Equation.FunctionNames

/-!
# Substitution removes names

An equation that is read in a context has the constants of the context in the place of their
names. What is left has none of these names any more and, since simplification introduces no
names, only names of the equation.

## Main definitions and results

* `Substituted`, `substituted_rebuild`: putting a constant in for a name removes the name and
  introduces none;
* `namesIn_replaceVars`: the same for several names;
* `Expression.mem_freeVariables_of_mem_vars`: the unknowns of an equation are among its
  `freeVariables`.
-/

namespace FluxBalance

open Equation

namespace Equation.Expr

variable {S : String → Prop} {a b e : Expr Constant} {rules : DecimalRules}

/-! ### Rebuilding -/

/-- Only names of the given kind occur in what is left of an expression. -/
def Rebuilt.NamesIn (S : String → Prop) : Rebuilt → Prop
  | .unchanged e | .single e => Expr.NamesIn S e
  | .addends es | .factors es => ∀ e ∈ es, Expr.NamesIn S e

private theorem namesIn_rebuilt_expr {r : Rebuilt} (h : r.NamesIn S) :
    NamesIn S (r.expr rules) := by
  cases r with
  | unchanged e => exact h
  | single e => exact h
  | addends es => exact namesIn_sum h
  | factors es => exact namesIn_product h

private theorem namesIn_asAddends {r : Rebuilt} (h : r.NamesIn S) :
    ∀ e ∈ r.asAddends rules, NamesIn S e := by
  cases r with
  | addends es => exact h
  | unchanged e => exact List.forall_mem_singleton.mpr h
  | single e => exact List.forall_mem_singleton.mpr h
  | factors es => exact List.forall_mem_singleton.mpr (namesIn_rebuilt_expr h)

private theorem namesIn_asFactors {r : Rebuilt} (h : r.NamesIn S) :
    ∀ e ∈ r.asFactors rules, NamesIn S e := by
  cases r with
  | factors es => exact h
  | unchanged e => exact List.forall_mem_singleton.mpr h
  | single e => exact List.forall_mem_singleton.mpr h
  | addends es => exact List.forall_mem_singleton.mpr (namesIn_rebuilt_expr h)

/-- What is left of an expression after the substitution of a constant for a name: it does not
mention the name, and if nothing is said to have changed, it is the expression. -/
structure Substituted (S : String → Prop) (name : String) (e : Expr Constant) (r : Rebuilt) :
    Prop where
  names : r.NamesIn fun n => S n ∧ n ≠ name
  unchanged : r.isUnchanged = true → r = .unchanged e

/-- What is unchanged by a substitution does not have the name. -/
private theorem Substituted.of_unchanged {name : String} {x : Rebuilt} (hx : Substituted S name a x)
    (h : x.isUnchanged = true) : NamesIn (fun n => S n ∧ n ≠ name) a := by
  have hnames := hx.names
  rwa [hx.unchanged h] at hnames

/-- If neither of two parts has changed, neither mentions the name. -/
private theorem Substituted.of_both_unchanged {name : String} {x y : Rebuilt}
    (hx : Substituted S name a x) (hy : Substituted S name b y)
    (h : (x.isUnchanged && y.isUnchanged) = true) :
    NamesIn (fun n => S n ∧ n ≠ name) a ∧ NamesIn (fun n => S n ∧ n ≠ name) b :=
  have h := Bool.and_eq_true_iff.mp h
  ⟨hx.of_unchanged h.1, hy.of_unchanged h.2⟩

/-- A single expression has changed. -/
private theorem substituted_single {name : String}
    (h : NamesIn (fun n => S n ∧ n ≠ name) b) : Substituted S name e (.single b) :=
  ⟨h, fun h => by cases h⟩

/-- Two parts of which neither has changed leave the expression as it is, and otherwise it is put
together again. -/
private theorem substituted_of_pair {name : String} {x y r : Rebuilt}
    {changed : Except Refusal Rebuilt} (hx : Substituted S name a x) (hy : Substituted S name b y)
    (hsame : NamesIn (fun n => S n ∧ n ≠ name) a ∧ NamesIn (fun n => S n ∧ n ≠ name) b →
      NamesIn (fun n => S n ∧ n ≠ name) e)
    (hchanged : changed = .ok r → Substituted S name e r)
    (h : (if (x.isUnchanged && y.isUnchanged) = true then .ok (.unchanged e) else changed) =
      .ok r) : Substituted S name e r := by
  split at h
  · rename_i hboth
    cases h
    exact ⟨hsame (hx.of_both_unchanged hy hboth), fun _ => rfl⟩
  · exact hchanged h

theorem Substituted.addends {name : String} {x y : Rebuilt} (hx : Substituted S name a x)
    (hy : Substituted S name b y) :
    Substituted S name e (.addends (x.asAddends rules ++ y.asAddends rules)) :=
  ⟨List.forall_mem_append.mpr ⟨namesIn_asAddends hx.names, namesIn_asAddends hy.names⟩,
    fun h => by cases h⟩

theorem Substituted.factors {name : String} {x y : Rebuilt} (hx : Substituted S name a x)
    (hy : Substituted S name b y) :
    Substituted S name e (.factors (x.asFactors rules ++ y.asFactors rules)) :=
  ⟨List.forall_mem_append.mpr ⟨namesIn_asFactors hx.names, namesIn_asFactors hy.names⟩,
    fun h => by cases h⟩

/-- **Substituting a constant for a name removes the name and introduces none.** -/
theorem substituted_rebuild {name : String} {value : Constant} :
    ∀ {e : Expr Constant} {r : Rebuilt}, NamesIn S e → rebuild rules name value e = .ok r →
      Substituted S name e r
  | const c, r, _, h => by
    cases h
    exact ⟨namesIn_const c, fun _ => rfl⟩
  | unknown n, r, _, h => by
    cases h
    exact ⟨namesIn_unknown n, fun _ => rfl⟩
  | var n, r, he, h => by
    unfold rebuild at h
    split at h
    · cases h
      exact substituted_single (namesIn_const value)
    · rename_i hn
      cases h
      exact ⟨namesIn_var.mpr ⟨namesIn_var.mp he, hn⟩, fun _ => rfl⟩
  | add a b, r, he, h => by
    obtain ⟨ha, hb⟩ := namesIn_add.mp he
    obtain ⟨x, hx, h⟩ := except_bind_eq_ok.mp h
    obtain ⟨y, hy, h⟩ := except_bind_eq_ok.mp h
    have hx := substituted_rebuild ha hx
    have hy := substituted_rebuild hb hy
    refine substituted_of_pair hx hy namesIn_add.mpr (fun h => ?_) h
    cases h
    exact hx.addends hy
  | mul a b, r, he, h => by
    obtain ⟨ha, hb⟩ := namesIn_mul.mp he
    obtain ⟨x, hx, h⟩ := except_bind_eq_ok.mp h
    obtain ⟨y, hy, h⟩ := except_bind_eq_ok.mp h
    have hx := substituted_rebuild ha hx
    have hy := substituted_rebuild hb hy
    refine substituted_of_pair hx hy namesIn_mul.mpr (fun h => ?_) h
    cases h
    exact hx.factors hy
  | pow a b, r, he, h => by
    obtain ⟨ha, hb⟩ := namesIn_pow.mp he
    obtain ⟨x, hx, h⟩ := except_bind_eq_ok.mp h
    obtain ⟨y, hy, h⟩ := except_bind_eq_ok.mp h
    have hx := substituted_rebuild ha hx
    have hy := substituted_rebuild hb hy
    refine substituted_of_pair hx hy namesIn_pow.mpr (fun h => ?_) h
    cases h
    exact substituted_single
      (namesIn_power (namesIn_rebuilt_expr hx.names) (namesIn_rebuilt_expr hy.names))
  | apply f a, r, he, h => by
    obtain ⟨x, hx, h⟩ := except_bind_eq_ok.mp h
    have hx := substituted_rebuild (namesIn_apply.mp he) hx
    split at h
    · rename_i hsame
      cases h
      exact ⟨namesIn_apply.mpr (hx.of_unchanged hsame), fun _ => rfl⟩
    · cases h
      exact substituted_single (namesIn_function (namesIn_rebuilt_expr hx.names))
  | apply₂ f a b, r, he, h => by
    obtain ⟨ha, hb⟩ := namesIn_apply₂.mp he
    obtain ⟨x, hx, h⟩ := except_bind_eq_ok.mp h
    obtain ⟨y, hy, h⟩ := except_bind_eq_ok.mp h
    have hx := substituted_rebuild ha hx
    have hy := substituted_rebuild hb hy
    have hp : NamesIn _ (x.expr rules) := namesIn_rebuilt_expr hx.names
    have hq : NamesIn _ (y.expr rules) := namesIn_rebuilt_expr hy.names
    refine substituted_of_pair hx hy namesIn_apply₂.mpr (fun h => ?_) h
    -- Each of the functions of two arguments has a normal form of its own.
    split at h
    · cases h
      exact substituted_single (namesIn_angle hp hq)
    · obtain ⟨m, hm, h⟩ := except_bind_eq_ok.mp h
      cases h
      exact substituted_single (namesIn_remainder hp hq hm)
    · obtain ⟨m, hm, h⟩ := except_bind_eq_ok.mp h
      cases h
      exact substituted_single (namesIn_extreme (namesIn_pair hp hq) hm)
    · obtain ⟨m, hm, h⟩ := except_bind_eq_ok.mp h
      cases h
      exact substituted_single (namesIn_extreme (namesIn_pair hp hq) hm)
  | applied a b, r, he, h => by
    obtain ⟨ha, hb⟩ := namesIn_applied.mp he
    obtain ⟨x, hx, h⟩ := except_bind_eq_ok.mp h
    obtain ⟨y, hy, h⟩ := except_bind_eq_ok.mp h
    have hx := substituted_rebuild ha hx
    have hy := substituted_rebuild hb hy
    refine substituted_of_pair hx hy namesIn_applied.mpr (fun h => ?_) h
    cases h
    exact substituted_single (namesIn_applied.mpr
      ⟨namesIn_rebuilt_expr hx.names, namesIn_rebuilt_expr hy.names⟩)

/-- After a substitution the name has gone, and no other one has come. -/
private theorem namesIn_replaceVar {name : String} {value : Constant} {r : Expr Constant}
    (he : NamesIn S e) (h : replaceVar rules name value e = .ok r) :
    NamesIn (fun n => S n ∧ n ≠ name) r := by
  obtain ⟨x, hx, h⟩ := except_bind_eq_ok.mp h
  cases h
  exact namesIn_rebuilt_expr (substituted_rebuild he hx).names

/-- **Substituting constants for names removes these names and introduces none.** -/
theorem namesIn_replaceVars :
    ∀ {S : String → Prop} {values : List (String × Constant)} {e r : Expr Constant}, NamesIn S e →
      replaceVars rules values e = .ok r → NamesIn (fun n => S n ∧ n ∉ values.map Prod.fst) r
  | _, [], e, r, he, h => by
    cases h
    simpa [NamesIn] using he
  | _, p :: values, e, r, he, h => by
    obtain ⟨d, hd, h⟩ := except_bind_eq_ok.mp h
    have hrest := namesIn_replaceVars (namesIn_replaceVar he hd) h
    intro n hn
    obtain ⟨⟨hS, hp⟩, hvalues⟩ := hrest n hn
    refine ⟨hS, ?_⟩
    rw [List.map_cons, List.mem_cons, not_or]
    exact ⟨hp, hvalues⟩

end Equation.Expr

/-! ### Equations in a context -/

variable {α : Type}

/-- A name has a value exactly if it is in the context. -/
theorem Context.isSome_lookup? (context : Context α) (name : String) :
    (context.lookup? name).isSome = context.contains name := by
  rw [Context.lookup?, Option.isSome_map, List.isSome_find?, Context.contains]

variable [Evaluable α]

/-- The constants that are put in are those of the names that occur. -/
theorem mem_constantsFor {context : Context α} {e : Expr Constant} {name : String} :
    name ∈ (constantsFor context e).map Prod.fst ↔
      name ∈ e.vars ∧ context.contains name = true := by
  -- The constants that are not finite come first, which changes nothing here.
  have hsplit {l : List (String × Constant)} : name ∈ ((l.filter fun p => !p.2.isFinite) ++
      l.filter fun p => p.2.isFinite).map Prod.fst ↔ name ∈ l.map Prod.fst := by
    simp only [List.map_append, List.mem_append, List.mem_map, List.mem_filter]
    constructor
    · rintro (⟨p, ⟨hp, -⟩, rfl⟩ | ⟨p, ⟨hp, -⟩, rfl⟩) <;> exact ⟨p, hp, rfl⟩
    · rintro ⟨p, hp, rfl⟩
      by_cases hfin : p.2.isFinite = true
      · exact .inr ⟨p, ⟨hp, hfin⟩, rfl⟩
      · exact .inl ⟨p, ⟨hp, by simpa using hfin⟩, rfl⟩
  rw [constantsFor, hsplit, ← Context.isSome_lookup?]
  simp only [List.mem_map, List.mem_filterMap, Option.map_eq_some_iff, Option.isSome_iff_exists]
  constructor
  · rintro ⟨_, ⟨n, hn, x, hx, rfl⟩, rfl⟩
    exact ⟨hn, x, hx⟩
  · rintro ⟨hn, x, hx⟩
    exact ⟨_, ⟨name, hn, x, hx, rfl⟩, rfl⟩

/-- An equation that has been read in a context. -/
theorem Expression.ofText_eq_ok {text : String} {context : Context α} {x : Expression α}
    (h : Expression.ofText text context = .ok x) :
    ∃ e r, parse (α := α) (Evaluable.rules α) text = .ok e ∧
      e.replaceVars (Evaluable.rules α) (constantsFor context e) = .ok r ∧
      x = { text := text, expr := r } := by
  obtain ⟨e, he, h⟩ := except_bind_eq_ok.mp h
  split at h
  · rename_i r hr
    cases h
    exact ⟨e, r, he, hr, rfl⟩
  · cases h
  · cases h

/-- An equation is read in a context if the context's constants can be put in. -/
theorem Expression.ofText_of_replaceVars {text : String} {context : Context α}
    {e r : Expr Constant} (he : parse (α := α) (Evaluable.rules α) text = .ok e)
    (hr : e.replaceVars (Evaluable.rules α) (constantsFor context e) = .ok r) :
    Expression.ofText text context = .ok { text := text, expr := r } := by
  refine except_bind_eq_ok.mpr ⟨e, he, ?_⟩
  split <;> rename_i h
  · cases hr.symm.trans h
    rfl
  · cases hr.symm.trans h
  · cases hr.symm.trans h

theorem Expression.text_of_ofText {text : String} {context : Context α} {x : Expression α}
    (h : Expression.ofText text context = .ok x) : x.text = text := by
  obtain ⟨e, r, -, -, rfl⟩ := ofText_eq_ok h
  rfl

/-- Reading an equation in a context, if its names can be found out, does not fail because of
its text. -/
theorem Expression.ofText_ne_expression {text : String} {context : Context α}
    {names : List String} (h : freeVariables text context = .ok names) (cause : ExpressionError) :
    Expression.ofText text context ≠ .error (.expression cause) := by
  obtain ⟨e, he, -⟩ := except_bind_eq_ok.mp h
  intro herror
  simp only [Expression.ofText, he, bind, Except.bind] at herror
  split at herror <;> cases herror

/-- An equation whose names cannot be found out cannot be read in any context, for the same
reason. -/
theorem Expression.ofText_of_freeVariables {text : String} {context known : Context α}
    {cause : Error α} (h : freeVariables text context = .error cause) :
    Expression.ofText text known = .error cause := by
  unfold freeVariables at h
  unfold Expression.ofText
  cases hparse : parse (α := α) (Evaluable.rules α) text with
  | error e =>
    rw [hparse] at h
    cases h
    rfl
  | ok e =>
    rw [hparse] at h
    cases h

/-- The names of an equation that are not in the context. -/
private theorem mem_freeVariables {text : String} {context : Context α} {names : List String}
    (h : freeVariables text context = .ok names) {name : String} : name ∈ names ↔
      ∃ e, parse (α := α) (Evaluable.rules α) text = .ok e ∧ name ∈ e.vars ∧
        context.contains name = false := by
  obtain ⟨e, he, h⟩ := except_bind_eq_ok.mp h
  cases h
  rw [List.mem_filter, Bool.not_eq_true']
  constructor
  · rintro ⟨hvars, hknown⟩
    exact ⟨e, he, hvars, hknown⟩
  · rintro ⟨e', he', hvars, hknown⟩
    rw [he] at he'
    cases he'
    exact ⟨hvars, hknown⟩

/-- **The unknowns of an equation are among its names that are not known.** -/
theorem Expression.mem_freeVariables_of_mem_vars {text : String} {context : Context α}
    {x : Expression α} (h : Expression.ofText text context = .ok x) {names : List String}
    (hnames : freeVariables text context = .ok names) : ∀ name ∈ x.vars, name ∈ names := by
  obtain ⟨e, r, he, hr, rfl⟩ := Expression.ofText_eq_ok h
  intro name hname
  have hin : Expr.NamesIn (· ∈ e.vars) e := fun n hn => Expr.mem_vars.mpr hn
  obtain ⟨hvars, hnot⟩ := Expr.namesIn_replaceVars hin hr name (Expr.mem_vars.mp hname)
  refine (mem_freeVariables hnames).mpr ⟨e, he, hvars, ?_⟩
  rw [mem_constantsFor, not_and] at hnot
  exact Bool.eq_false_iff.mpr (hnot hvars)

end FluxBalance
