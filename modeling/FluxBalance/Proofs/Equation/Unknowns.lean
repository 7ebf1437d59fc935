import FluxBalance.Proofs.Equation.Meaning
import Mathlib.Data.List.Sort

/-!
# Two ways to count unknowns

The unknowns of an equation in a context are counted in two ways. `freeVariables` takes the names of
the simplified equation and leaves out those of the context. An `Expression` puts the values of the
context in, simplifies once more, and takes the names that are left. Both lists ascend, and the
second one is part of the first, but it may be shorter: an unknown is lost when the values make its
coefficient vanish.

With nothing rounded, what is lost does not matter. If the value of an arithmetic equation depends
on an unknown, the unknown is not lost; so the two counts agree if the value depends on all of them.

## Main definitions and results

* `vars_sublist`: the unknowns that are left, `vars`, are among the `freeVariables`;
* `Equation.Formula.DependsOn`, `Expression.mem_vars_of_dependsOn`: an unknown that the value
  depends on is not lost;
* `unknowns_counted`: how the two counts compare.
-/

namespace FluxBalance

open Equation

variable {α : Type} [Evaluable α] {text : String}

/-! ### The names that are left -/

omit [Evaluable α] in
/-- The names of an expression ascend. -/
private theorem Equation.Expr.pairwise_vars {κ : Type} (e : Expr κ) : e.vars.Pairwise (· < ·) :=
  pairwise_foldr_insertName _

/-- The free variables are the names of the expression that are no constants. -/
private theorem freeVariables_of_parse {e : Expr Constant}
    (he : parse (α := α) (Evaluable.rules α) text = .ok e) (context : Context α) :
    freeVariables text context = .ok (e.vars.filter fun n => !context.contains n) := by
  rw [freeVariables, he]
  rfl

/-- The free variables are sorted, and each is listed once. -/
private theorem pairwise_freeVariables {context : Context α} {names : List String}
    (h : freeVariables text context = .ok names) : names.Pairwise (· < ·) := by
  obtain ⟨e, -, h⟩ := except_bind_eq_ok.mp h
  cases h
  exact e.pairwise_vars.filter _

namespace Expression

/-- The unknowns of an equation are sorted, and each is listed once. -/
private theorem pairwise_vars {context : Context α} {x : Expression α}
    (h : ofText text context = .ok x) : x.vars.Pairwise (· < ·) := by
  obtain ⟨-, r, -, -, rfl⟩ := ofText_eq_ok h
  exact r.pairwise_vars

/-- **The unknowns that are left are among the names that are not known**, in the same order. -/
theorem vars_sublist {context : Context α} {x : Expression α} {names : List String}
    (h : ofText text context = .ok x) (hnames : freeVariables text context = .ok names) :
    x.vars.Sublist names :=
  have hleft := pairwise_vars h
  List.sublist_of_subperm_of_pairwise
    (List.subperm_of_subset (hleft.imp ne_of_lt) (mem_freeVariables_of_mem_vars h hnames)) hleft
    (pairwise_freeVariables hnames)

/-- A context that has no value for a name of the equation changes nothing. -/
private theorem ofText_of_unused {context : Context α} {e : Expr Constant}
    (he : parse (α := α) (Evaluable.rules α) text = .ok e)
    (hunused : ∀ n ∈ e.vars, context.contains n = false) :
    ofText text context = .ok { text := text, expr := e } := by
  have hnone : (constantsFor context e).map Prod.fst = [] := by
    refine List.eq_nil_iff_forall_not_mem.mpr fun n hn => ?_
    obtain ⟨hvars, hknown⟩ := mem_constantsFor.mp hn
    rw [hunused n hvars] at hknown
    cases hknown
  refine ofText_of_replaceVars he ?_
  rw [List.map_eq_nil_iff.mp hnone]
  rfl

end Expression

/-! ### Names that matter -/

/-- The value of the formula in the context depends on the name: there are values of all names at
which another value of this one makes a difference. -/
def Equation.Formula.DependsOn (f : Formula) (context : Context Rat) (name : String) : Prop :=
  ∃ (values : String → Option Rat) (a v w : Rat), f.value? (valuesIn context values) = some v ∧
    f.value? (valuesIn context (Function.update values name (some a))) = some w ∧ v ≠ w

/-- **An unknown that matters is not lost.** -/
theorem Expression.mem_vars_of_dependsOn {f : Formula} {context : Context Rat} {name : String}
    (hf : Writes text f) (hpowers : f.IntegerPowers) (h : f.DependsOn context name) :
    ∃ x, Expression.ofText text context = .ok x ∧ name ∈ x.vars := by
  obtain ⟨values, a, v, w, hv, hw, hne⟩ := h
  obtain ⟨x, hx, -, hxv⟩ := evaluate_of_writes hf hpowers hv
  obtain ⟨x', hx', -, hxw⟩ := evaluate_of_writes hf hpowers hw
  cases hx.symm.trans hx'
  refine ⟨x, hx, ?_⟩
  by_contra hlost
  -- At both points the unknowns that are left have the same values.
  have hagree : ∀ n ∈ x.vars, values n = Function.update values name (some a) n := by
    rintro n hn
    rw [Function.update_of_ne]
    rintro rfl
    exact hlost hn
  rw [evaluate_congr hx hagree, hxw] at hxv
  exact hne (Except.ok.inj hxv).symm

/-! ### The two counts -/

/-- **The two counts of unknowns.** If an equation can be read, its names that are not known are
found in every context. To put the values of the context in fails with a fault, or what is left has
some of these names as its unknowns, in the same order; and all of them if the equation has no name
of the context. Over exact numbers, what is left of an arithmetic equation has every unknown that
its value depends on; so the two counts agree if it depends on all of them. -/
theorem unknowns_counted :
    (∀ (text : String) (context : Context α) (e : Expr Constant),
      parse (α := α) (Evaluable.rules α) text = .ok e →
      ∃ names, freeVariables text context = .ok names ∧
        ((∃ x, Expression.ofText text context = .ok x ∧ x.vars.Sublist names) ∨
          Expression.ofText text context = .error (.fault .badValue) ∨
          Expression.ofText text context = .error (.fault .divisionByZero)) ∧
        ((∀ n ∈ e.vars, context.contains n = false) →
          ∃ x, Expression.ofText text context = .ok x ∧ x.vars = names)) ∧
    ∀ (text : String) (f : Formula) (context : Context Rat), Writes text f → f.IntegerPowers →
      (∀ name, f.DependsOn context name →
        ∃ x, Expression.ofText text context = .ok x ∧ name ∈ x.vars) ∧
      ∀ names x, freeVariables text context = .ok names → Expression.ofText text context = .ok x →
        (∀ name ∈ names, f.DependsOn context name) → x.vars = names := by
  refine ⟨fun text context e he => ?_, fun text f context hf hpowers => ⟨fun name hname => ?_,
    fun names x hnames hx hdepends => ?_⟩⟩
  · have hnames := freeVariables_of_parse he context
    refine ⟨_, hnames, ?_, fun hunused => ⟨_, Expression.ofText_of_unused he hunused, ?_⟩⟩
    · cases hx : Expression.ofText text context with
      | ok x => exact .inl ⟨x, rfl, Expression.vars_sublist hx hnames⟩
      | error cause =>
        refine .inr ?_
        simp only [Expression.ofText, he, bind, Except.bind] at hx
        split at hx
        · cases hx
        · cases hx
          exact .inl rfl
        · cases hx
          exact .inr rfl
    · -- No name of the equation is known, so the filter by the context keeps all of them.
      refine (List.filter_eq_self.mpr fun n hn => ?_).symm
      rw [hunused n hn]
      rfl
  · exact Expression.mem_vars_of_dependsOn hf hpowers hname
  · -- Both lists are sorted, so it is enough that each contains the other.
    refine List.Subset.antisymm_of_pairwise (Expression.pairwise_vars hx)
      (pairwise_freeVariables hnames) (Expression.vars_sublist hx hnames).subset
      fun name hname => ?_
    obtain ⟨x', hx', hmem⟩ := Expression.mem_vars_of_dependsOn hf hpowers (hdepends name hname)
    cases hx.symm.trans hx'
    exact hmem

/-! ### A product -/

/-- **The two counts may differ.** With zero for `k`, the unknown of `k*x = 1` is lost. -/
theorem exists_counts_differ :
    freeVariables "k*x = 1" ([("k", 0)] : Context Float) = .ok ["x"] ∧
      ∃ x, Expression.ofText "k*x = 1" ([("k", 0)] : Context Float) = .ok x ∧ x.vars = [] := by
  have hread : (Expression.ofText "k*x = 1" ([("k", 0)] : Context Float)).toOption.map (·.vars) =
      some [] := by decide +kernel
  obtain ⟨x, hx, hvars⟩ := Option.map_eq_some_iff.mp hread
  exact ⟨except_toOption_eq_some.mp (by decide +kernel), x, except_toOption_eq_some.mp hx, hvars⟩

/-- With three for `k`, the value of `k*x = 1` depends on `x`, and both ways count it. Without a
value for `k`, both ways count two unknowns. -/
theorem unknowns_counted_product :
    (∃ x, Expression.ofText "k*x = 1" ([("k", 3)] : Context Rat) = .ok x ∧ x.vars = ["x"]) ∧
      ∃ x, Expression.ofText "k*x = 1" ([] : Context Rat) = .ok x ∧ x.vars = ["k", "x"] := by
  obtain ⟨hall, hexact⟩ := unknowns_counted (α := Rat)
  constructor
  · have hname {n : String} (hn : n ∉ keywords) (hn' : n ∉ ["True", "False", "None"]) :
        Derives .factor [.name n] (.name n) := .ofPower (.ofAtom (.name hn hn'))
    have hleft : Derives .sum [.name "k", .op "*", .name "x"] (.mul (.name "k") (.name "x")) :=
      .ofProduct (.mul (.ofFactor (hname (by decide) (by decide)))
        (hname (by decide) (by decide)))
    have hright : Derives .sum [.integer 1] (.integer 1) :=
      .ofProduct (.ofFactor (.ofPower (.ofAtom (.integer 1))))
    have hwrites : Writes "k*x = 1" (.sub (.mul (.name "k") (.name "x")) (.integer 1)) :=
      writes_of_sides (show splitAtEquals _ none = ["k*x ".toList, " 1".toList] by decide +kernel)
        (by decide +kernel) (by decide +kernel) (by decide +kernel) (by decide +kernel) hleft hright
    have hdepends : Formula.DependsOn (.sub (.mul (.name "k") (.name "x")) (.integer 1))
        [("k", 3)] "x" :=
      ⟨fun _ => some 0, 1, -1, 2, by decide +kernel, by decide +kernel, by decide⟩
    obtain ⟨hkept, hagree⟩ := hexact _ _ _ hwrites ⟨⟨trivial, trivial⟩, trivial⟩
    obtain ⟨x, hx, -⟩ := hkept "x" hdepends
    refine ⟨x, hx, hagree ["x"] x (except_toOption_eq_some.mp (by decide +kernel)) hx ?_⟩
    exact List.forall_mem_singleton.mpr hdepends
  · have hparse : ((parse rationalRules "k*x = 1" : Except (Error Rat) _).toOption.map Expr.vars) =
        some ["k", "x"] := by decide +kernel
    obtain ⟨e, he, hvars⟩ := Option.map_eq_some_iff.mp hparse
    have he : parse (α := Rat) rationalRules "k*x = 1" = .ok e := except_toOption_eq_some.mp he
    obtain ⟨names, hnames, -, hunused⟩ := hall "k*x = 1" [] e he
    obtain ⟨x, hx, hcount⟩ := hunused fun n _ => rfl
    rw [freeVariables_of_parse he, hvars] at hnames
    cases hnames
    exact ⟨x, hx, hcount⟩

end FluxBalance
