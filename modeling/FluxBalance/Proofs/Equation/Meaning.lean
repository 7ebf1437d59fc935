import FluxBalance.Proofs.Equation.Evaluation
import FluxBalance.Proofs.Equation.Grammar
import FluxBalance.Proofs.Equation.Residual
import FluxBalance.Proofs.Equation.SubstitutionValue

/-!
# Equations evaluate to what they say

With nothing rounded, the value of an arithmetic equation in a context is the value that its text
has when it is read operator by operator. The text is read as the formula that the grammar gives it.
The formula simplifies to an expression with its value; putting in the constants of the context and
simplifying again keeps the value, and leaves no name of the context; and the evaluation of what is
left computes it.

## Main definitions and results

* `Writes`: the text of an equation is derived by the grammar as a formula;
* `evaluate_of_writes`: the equation is evaluated to the value of this formula at `valuesIn` the
  context.
-/

namespace FluxBalance

namespace Equation

variable {p q point : String → Option Rat} {x v : Rat}

/-! ### Reading -/

/-- The text of an equation, put together to one formula, is derived by the grammar of arithmetic as
this formula. -/
def Writes (text : String) (f : Formula) : Prop :=
  ∃ body ts, residualText text = .ok body ∧ Token.ofText? body = some ts ∧ Derives .sum ts f

variable {text : String} {f : Formula}

private theorem ofText?_of_blank (h : Text.isAllBlank text = true) :
    Token.ofText? text = some [] := by
  have hnothing : text.toList.dropWhile Text.isBlank = [] :=
    List.dropWhile_eq_nil_iff.mpr (List.all_eq_true.mp h)
  have hstrip : Text.stripChars text.toList = [] := by
    rw [Text.stripChars, hnothing]
    rfl
  rw [Token.ofText?, hstrip]
  rfl

/-- An equation that is not refused is not blank, unless it stands for itself. -/
private theorem not_blank_of_residualText {body : String} (h : residualText text = .ok body) :
    body = text ∨ Text.isAllBlank text = false := by
  unfold residualText at h
  split at h
  · cases h
    exact .inl rfl
  · rename_i hsplit
    exact .inr (isAllBlank_of_sides hsplit)
  · cases h

private theorem Writes.readFormula_eq (h : Writes text f) : readFormula text = .ok f := by
  obtain ⟨body, ts, hbody, hts, hderives⟩ := h
  refine readFormula_eq_ok.mpr ⟨?_, body, hbody,
    ofText?_eq_scalar.mpr ⟨ts, hts, Reader.read?_of_derives hderives⟩⟩
  rcases not_blank_of_residualText hbody with rfl | hblank
  · by_contra hblank
    rw [ofText?_of_blank (Bool.not_eq_false _ ▸ hblank)] at hts
    cases hts
    obtain ⟨t, us, hnil, -⟩ := Reader.starts_of_derives hderives
    cases hnil
  · exact hblank

private theorem not_blank_of_derives {cs : List Char} {ts : List Token}
    (h : Token.isSelfContained cs = true) (hts : Token.tokens? 0 cs = some ts)
    (hf : Derives .sum ts f) : cs.all Text.isBlank = false := by
  have hread : Reader.read? [] ts = some (.scalar f) := Reader.read?_of_derives hf
  exact not_blank_of_read? h hts hread

/-- An equation whose sides are derived by the grammar is the difference of their formulas. -/
theorem writes_of_sides {left right : List Char} {ts us : List Token} {a b : Formula}
    (hsplit : splitAtEquals text.toList none = [left, right])
    (hleft : Token.isSelfContained left = true) (hright : Token.isSelfContained right = true)
    (hts : Token.tokens? 0 left = some ts) (hus : Token.tokens? 0 right = some us)
    (ha : Derives .sum ts a) (hb : Derives .sum us b) : Writes text (.sub a b) := by
  have hresidual : residualText text = .ok (String.ofList (Token.differenceText left right)) := by
    rw [residualText_sides hsplit, not_blank_of_derives hleft hts ha,
      not_blank_of_derives hright hus hb]
    rfl
  have htokens : Token.ofText? (String.ofList (Token.differenceText left right)) =
      some (Reader.difference ts us) := by
    rw [Token.ofText?_differenceText, Token.tokens?_difference hleft hright, hts, hus]
    rfl
  refine ⟨_, _, hresidual, htokens, ?_⟩
  rw [Reader.difference_eq]
  exact .sub (.ofProduct (.ofFactor (.ofPower (.ofAtom (.parentheses ha)))))
    (.ofFactor (.ofPower (.ofAtom (.parentheses hb))))

/-! ### Names of expressions with values -/

namespace Expr

/-- The names of an expression that has a value have values. -/
private theorem namesIn_of_valued : ∀ {e : Expr Constant}, e.Valued point →
    NamesIn (fun n => (point n).isSome = true) e
  | const c, _ => namesIn_const c
  | var n, h => namesIn_var.mpr h
  | add a b, h => namesIn_add.mpr ⟨namesIn_of_valued h.1, namesIn_of_valued h.2⟩
  | mul a b, h => namesIn_mul.mpr ⟨namesIn_of_valued h.1, namesIn_of_valued h.2⟩
  | pow a b, h => by
    obtain ⟨hbase, k, ⟨c, rfl, -⟩, -⟩ := h
    exact namesIn_pow.mpr ⟨namesIn_of_valued hbase, namesIn_const c⟩

/-- At points that agree on the names of an expression it is evaluated to the same value. -/
theorem evaluate_congr {e : Expr Constant} (h : NamesIn (fun n => p n = q n) e) :
    e.evaluate p = e.evaluate q := by
  unfold evaluate evaluatePrepared
  rw [fraction_congr]
  intro n hn
  rw [prepare, occurrences_map] at hn
  exact h n hn

end Expr

/-! ### Constants of a context -/

/-- The value of a name: the context's if it has one, else the one that is given. -/
def valuesIn (context : Context Rat) (values : String → Option Rat) (n : String) : Option Rat :=
  (context.lookup? n).or (values n)

/-- The constants that are put in are finite and have the values of the context. -/
private theorem value_of_mem_constantsFor {context : Context Rat} {values : String → Option Rat}
    {e : Expr Constant} {c : String × Constant} (h : c ∈ constantsFor context e) :
    c.2.isFinite = true ∧ valuesIn context values c.1 = some c.2.value := by
  have hmem : c ∈ e.vars.filterMap fun n =>
      (context.lookup? n).map fun x => (n, Evaluable.toConstant x) := by
    rcases List.mem_append.mp h with h | h
    · exact (List.mem_filter.mp h).1
    · exact (List.mem_filter.mp h).1
  obtain ⟨n, -, hc⟩ := List.mem_filterMap.mp hmem
  obtain ⟨x, hx, rfl⟩ := Option.map_eq_some_iff.mp hc
  refine ⟨rfl, ?_⟩
  rw [valuesIn, hx]
  rfl

/-- The names that are left when the constants of a context have been put in are not the context's,
and are those that the value depends on. -/
private theorem names_of_replaceVars {context : Context Rat} {values : String → Option Rat}
    {e r : Expr Constant} (hr : e.replaceVars rationalRules (constantsFor context e) = .ok r)
    (hvalue : r.Means (valuesIn context values) v) : ∀ n ∈ r.vars,
      context.contains n = false ∧ valuesIn context values n = values n ∧
        (values n).isSome = true := by
  intro n hn
  have hin : Expr.NamesIn (· ∈ e.vars) e := fun n hn => Expr.mem_vars.mpr hn
  obtain ⟨hvars, hnot⟩ := Expr.namesIn_replaceVars hin hr n (Expr.mem_vars.mp hn)
  rw [mem_constantsFor, not_and, Bool.not_eq_true] at hnot
  have hfree : context.contains n = false := hnot hvars
  have hlookup : context.lookup? n = none := by
    rw [← Option.not_isSome_iff_eq_none, Context.isSome_lookup?, hfree]
    exact Bool.false_ne_true
  have hgiven : valuesIn context values n = values n := by
    rw [valuesIn, hlookup, Option.none_or]
  have hsome : (valuesIn context values n).isSome = true :=
    Expr.namesIn_of_valued hvalue.valued n (Expr.mem_vars.mp hn)
  rw [hgiven] at hsome
  exact ⟨hfree, hgiven, hsome⟩

end Equation

open Equation

/-! ### Evaluation in a context -/

namespace Expression

variable {text : String} {f : Formula} {context : Context Rat} {values : String → Option Rat}
  {v : Rat} {e r : Expr Constant}

/-- An expression whose unknowns are given has the value of what it is made of. -/
private theorem evaluate_of_expr (hgiven : ∀ n ∈ r.vars, (values n).isSome = true)
    (hr : r.evaluate values = .ok v) :
    evaluate ({ text := text, expr := r } : Expression Rat) values = .ok v := by
  have hnone : (r.vars.find? fun n => (values n).isNone) = none :=
    List.find?_eq_none.mpr fun n hn hnone => by
      have hsome := hgiven n hn
      rw [Option.isNone_iff_eq_none.mp hnone] at hsome
      cases hsome
  have hpoint : (fun n => (values n).map (Evaluable.toValue (α := Rat))) = values :=
    funext fun n => Option.map_id_apply
  have hprepared : r.prepare.evaluatePrepared values = .ok v := hr
  unfold evaluate
  dsimp only
  rw [hnone, hpoint]
  dsimp only
  rw [hprepared]
  rfl

/-- **An arithmetic equation is evaluated to the value of its text.** The value of the text is
computed operator by operator, with the context's values for its names and the given ones for all
others, and nothing is divided by zero on the way. Then the equation is read in the context, what is
left of it has only names that are given, and its value there is the value of the text. -/
theorem evaluate_of_writes (hf : Writes text f) (hpowers : f.IntegerPowers)
    (hv : f.value? (valuesIn context values) = some v) :
    ∃ x, ofText text context = .ok x ∧
      (∀ n ∈ x.vars, context.contains n = false ∧ (values n).isSome = true) ∧
        x.evaluate values = .ok v := by
  obtain ⟨e, he, hmeans⟩ := Formula.means_simplify hpowers hv
  have hparse : parse (α := Rat) rationalRules text = .ok e :=
    parse_eq_ok.mpr ⟨f, hf.readFormula_eq, he⟩
  have hconstants : ∀ c ∈ constantsFor context e, c.2.isFinite = true ∧
      valuesIn context values c.1 = some c.2.value := fun c hc => value_of_mem_constantsFor hc
  obtain ⟨r, hr, hvalue⟩ := Expr.means_replaceVars hconstants hmeans
  have hnames := names_of_replaceVars hr hvalue
  have hevaluate : r.evaluate values = .ok v := by
    rw [← Expr.evaluate_eq hvalue]
    exact Expr.evaluate_congr fun n hn => (hnames n (Expr.mem_vars.mpr hn)).2.1.symm
  exact ⟨_, ofText_of_replaceVars hparse hr, fun n hn => ⟨(hnames n hn).1, (hnames n hn).2.2⟩,
    evaluate_of_expr (fun n hn => (hnames n hn).2.2) hevaluate⟩

/-- With three for `k`, the equation `2*x^2 - k/4 = y` has the value `193/4` where `x` is five and
`y` is one. -/
theorem evaluate_parabola : ∃ x, ofText "2*x^2 - k/4 = y" ([("k", 3)] : Context Rat) = .ok x ∧
    (∀ n ∈ x.vars, n ≠ "k") ∧
      x.evaluate (fun n => if n = "x" then some 5 else if n = "y" then some 1 else none) =
        .ok (193 / 4) := by
  have hnumber (n : Nat) : Derives .factor [.integer n] (.integer n) :=
    .ofPower (.ofAtom (.integer n))
  have hname {x : String} (hx : x ∉ keywords) (hx' : x ∉ ["True", "False", "None"]) :
      Derives .factor [.name x] (.name x) := .ofPower (.ofAtom (.name hx hx'))
  have hsquare : Derives .factor [.name "x", .op "^", .integer 2] (.pow (.name "x") (.integer 2)) :=
    .ofPower (.pow (.inr rfl) (.name (by decide) (by decide)) (hnumber 2))
  have hleft := Derives.sub (.ofProduct (.mul (.ofFactor (hnumber 2)) hsquare))
    (.div (.ofFactor (hname (show "k" ∉ keywords by decide) (by decide))) (hnumber 4))
  have hright : Derives .sum [.name "y"] (.name "y") :=
    .ofProduct (.ofFactor (hname (by decide) (by decide)))
  have hwrites : Writes "2*x^2 - k/4 = y" (.sub (.sub (.mul (.integer 2)
      (.pow (.name "x") (.integer 2))) (.div (.name "k") (.integer 4))) (.name "y")) :=
    writes_of_sides
      (show splitAtEquals _ none = ["2*x^2 - k/4 ".toList, " y".toList] by decide +kernel)
      (by decide +kernel) (by decide +kernel) (by decide +kernel) (by decide +kernel) hleft hright
  have hvalue : Formula.value? (valuesIn ([("k", 3)] : Context Rat)
      fun n => if n = "x" then some 5 else if n = "y" then some 1 else none)
      (.sub (.sub (.mul (.integer 2) (.pow (.name "x") (.integer 2)))
        (.div (.name "k") (.integer 4))) (.name "y")) = some (193 / 4) := by decide +kernel
  obtain ⟨x, hx, hnames, hx'⟩ := evaluate_of_writes hwrites
    ⟨⟨⟨trivial, trivial, 2, rfl⟩, trivial, trivial⟩, trivial⟩ hvalue
  refine ⟨x, hx, fun n hn => ?_, hx'⟩
  rintro rfl
  exact absurd (hnames _ hn).1 (by decide)

end Expression

end FluxBalance
