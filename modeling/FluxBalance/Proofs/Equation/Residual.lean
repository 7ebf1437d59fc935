import FluxBalance.Equation.Expression
import FluxBalance.Proofs.Equation.Difference
import FluxBalance.Proofs.Equation.FormulaValue
import FluxBalance.Proofs.Equation.FractionValue

/-!
# An equation is the difference of its sides

An equation is read as the text of a difference, in which its sides stand in parentheses. If each
side is self-contained, it is read there as it is read on its own. So the equation is accepted
exactly if both sides are and no name that one of them calls stands alone in the other, and what it
stands for is the difference of what they stand for.

A side that is not self-contained can act on the parentheses that are put around it: its brackets
can be closed by them, and its comment can hide them.

## Main definitions and results

* `Separate`: no name that is called in one text stands alone in the other one;
* `splitAtEquals_pair`: how `splitAtEquals` finds two sides;
* `accepted_iff_sides_accepted`: an equation is accepted exactly if its sides are, and it stands for
  `Expr.difference` of what they stand for.
-/

namespace FluxBalance.Equation

/-! ### The equality sign -/

variable {cs left right : List Char}

/-- Whether an equality sign between a character and a text is single. -/
def isSplit (before : Option Char) (c : Char) (rest : List Char) : Bool :=
  c = '=' && !splitAtEquals.partOfComparison before && rest.head? != some '='

private theorem splitAtEquals_of_split {before : Option Char} {c : Char}
    (h : isSplit before c cs = true) :
    splitAtEquals (c :: cs) before = [] :: splitAtEquals cs (some c) :=
  if_pos h

/-- Any other character belongs to the part that it stands in. -/
private theorem splitAtEquals_of_not_split {before : Option Char} {c : Char} {part : List Char}
    {parts : List (List Char)} (h : isSplit before c cs = false)
    (hparts : splitAtEquals cs (some c) = part :: parts) :
    splitAtEquals (c :: cs) before = (c :: part) :: parts := by
  rw [splitAtEquals, hparts]
  exact if_neg fun hsplit => Bool.false_ne_true (h.symm.trans hsplit)

private theorem splitAtEquals_ne_nil (cs : List Char) (before : Option Char) :
    splitAtEquals cs before ≠ [] := by
  induction cs generalizing before with
  | nil => exact List.cons_ne_nil _ _
  | cons c cs ih =>
    cases hsplit : isSplit before c cs with
    | true =>
      rw [splitAtEquals_of_split hsplit]
      exact List.cons_ne_nil _ _
    | false =>
      obtain ⟨part, parts, hparts⟩ := List.exists_cons_of_ne_nil (ih (some c))
      rw [splitAtEquals_of_not_split hsplit hparts]
      exact List.cons_ne_nil _ _

/-- A text without a single equality sign is its only part, also if it does not begin with such a
sign and another character comes before it. -/
private theorem splitAtEquals_single {before : Option Char} (h : splitAtEquals cs before = [left]) :
    left = cs ∧ ∀ before', cs.head? ≠ some '=' → splitAtEquals cs before' = [cs] := by
  induction cs generalizing before left with
  | nil =>
    cases h
    exact ⟨rfl, fun _ _ => rfl⟩
  | cons c cs ih =>
    obtain ⟨part, parts, hparts⟩ :=
      List.exists_cons_of_ne_nil (splitAtEquals_ne_nil cs (some c))
    cases hsplit : isSplit before c cs with
    | true =>
      rw [splitAtEquals_of_split hsplit, hparts] at h
      cases h
    | false =>
      rw [splitAtEquals_of_not_split hsplit hparts] at h
      cases h
      obtain ⟨rfl, -⟩ := ih hparts
      refine ⟨rfl, fun before' hhead => splitAtEquals_of_not_split ?_ hparts⟩
      have hc : c ≠ '=' := fun hc => hhead (congrArg some hc)
      rw [isSplit, decide_eq_false hc, Bool.false_and, Bool.false_and]

/-- **A text with one equality sign is its two sides with the sign between them**, and neither side
has such a sign of its own. -/
theorem splitAtEquals_pair {before : Option Char} (h : splitAtEquals cs before = [left, right]) :
    cs = left ++ '=' :: right ∧ splitAtEquals left before = [left] ∧
      splitAtEquals right none = [right] ∧
      (left = [] → splitAtEquals.partOfComparison before = false) := by
  induction cs generalizing before left with
  | nil => cases h
  | cons c cs ih =>
    obtain ⟨part, parts, hparts⟩ :=
      List.exists_cons_of_ne_nil (splitAtEquals_ne_nil cs (some c))
    cases hsplit : isSplit before c cs with
    | true =>
      -- The text is split at this character, and the rest of it is not split.
      rw [splitAtEquals_of_split hsplit, hparts] at h
      cases h
      obtain ⟨rfl, hright⟩ := splitAtEquals_single hparts
      rw [isSplit, Bool.and_eq_true, Bool.and_eq_true, decide_eq_true_eq, Bool.not_eq_true',
        bne_iff_ne] at hsplit
      obtain ⟨⟨rfl, hbefore⟩, hhead⟩ := hsplit
      exact ⟨rfl, rfl, hright none hhead, fun _ => hbefore⟩
    | false =>
      -- The character goes to the left side, and must not make a split with what follows it there.
      rw [splitAtEquals_of_not_split hsplit hparts] at h
      cases h
      obtain ⟨rfl, hpart, hright, hbefore⟩ := ih hparts
      refine ⟨rfl, splitAtEquals_of_not_split ?_ hpart, hright, nofun⟩
      cases part with
      | nil =>
        have hc : c ≠ '=' := by
          rintro rfl
          exact absurd (hbefore rfl) (by decide)
        rw [isSplit, decide_eq_false hc, Bool.false_and, Bool.false_and]
      | cons p part => exact hsplit

/-! ### The difference of the sides -/

open Token (isSelfContained differenceText)

/-- In `differenceText` both sides stand in parentheses with a minus between them. -/
private theorem ofList_differenceText (left right : List Char) :
    "(" ++ String.ofList left ++ ") - (" ++ String.ofList right ++ ")" =
      String.ofList (differenceText left right) := by
  apply String.toList_injective
  simp [differenceText]

section

variable {text : String} (hsplit : splitAtEquals text.toList none = [left, right])

include hsplit

/-- An equation with two sides has the text of their difference for its residual, unless a side is
blank. -/
theorem residualText_sides : residualText text =
    if left.all Text.isBlank || right.all Text.isBlank then .error (.emptySide text)
    else .ok (String.ofList (differenceText left right)) := by
  unfold residualText
  rw [hsplit]
  dsimp only
  rw [ofList_differenceText]

/-- A text with an equality sign is not blank. -/
theorem isAllBlank_of_sides : Text.isAllBlank text = false := by
  rw [Text.isAllBlank, (splitAtEquals_pair hsplit).1, List.all_append, List.all_cons,
    show Text.isBlank '=' = false by decide, Bool.false_and, Bool.and_false]

end

/-! ### Formulas of the sides -/

variable {f : Formula}

/-- No name that is called in one of two texts stands alone in the other one. -/
def Separate (left right : String) : Prop :=
  ∀ ts us, Token.ofText? left = some ts → Token.ofText? right = some us →
    Reader.Compatible ts us (Token.bareNames left) (Token.bareNames right)

theorem ofText?_eq_scalar {text : String} : Operand.ofText? text = some (.scalar f) ↔
    ∃ ts, Token.ofText? text = some ts ∧
      Reader.read? (Token.bareNames text) ts = some (.scalar f) := by
  unfold Operand.ofText?
  cases Token.ofText? text with
  | none => simp
  | some ts => simp

/-- A text is a formula if it is not blank and the text of its residual is a scalar. -/
theorem readFormula_eq_ok {text : String} : readFormula text = .ok f ↔
    Text.isAllBlank text = false ∧ ∃ body, residualText text = .ok body ∧
      Operand.ofText? body = some (.scalar f) := by
  unfold readFormula
  cases Text.isAllBlank text with
  | true => exact ⟨nofun, nofun⟩
  | false =>
    cases residualText text with
    | error e => exact ⟨nofun, nofun⟩
    | ok body =>
      cases hbody : Operand.ofText? body with
      | none => simp [hbody, bind, Except.bind]
      | some a => cases a <;> simp [hbody, bind, Except.bind, pure, Except.pure]

/-- The tokens of a self-contained text are `Balanced`. -/
private theorem balanced_of_tokens? {ts : List Token} (h : isSelfContained cs = true)
    (hts : Token.tokens? 0 cs = some ts) : Reader.Balanced ts := by
  obtain ⟨hplain, hnests⟩ := Token.isSelfContained_iff.mp h
  exact (Token.leads_tokens? hplain hnests (by decide) hts).balanced

private theorem tokens?_of_blank (h : isSelfContained cs = true)
    (hblank : cs.all Text.isBlank = true) : Token.tokens? 0 cs = some [] := by
  obtain ⟨hplain, hnests⟩ := Token.isSelfContained_iff.mp h
  exact Token.tokens?_gaps (Token.nests_blanks hplain hblank hnests).2

/-- The tokens of a side whose formula is read are not those of a blank text. -/
theorem not_blank_of_read? {bare : List String} {ts : List Token} (h : isSelfContained cs = true)
    (hts : Token.tokens? 0 cs = some ts) (hread : Reader.read? bare ts = some (.scalar f)) :
    cs.all Text.isBlank = false := by
  by_contra hblank
  rw [tokens?_of_blank h (Bool.not_eq_false _ ▸ hblank)] at hts
  cases hts
  cases hread

/-- The formula of a self-contained text without an equality sign is what its tokens read. -/
private theorem readFormula_side (h : isSelfContained cs = true)
    (hone : splitAtEquals cs none = [cs]) :
    readFormula (String.ofList cs) = .ok f ↔ ∃ ts, Token.tokens? 0 cs = some ts ∧
      Reader.read? (Token.bareNames (String.ofList cs)) ts = some (.scalar f) := by
  have hresidual : residualText (String.ofList cs) = .ok (String.ofList cs) := by
    unfold residualText
    rw [String.toList_ofList, hone]
  rw [readFormula_eq_ok, hresidual, Text.isAllBlank, String.toList_ofList]
  constructor
  · rintro ⟨-, body, hbody, hread⟩
    cases hbody
    rw [ofText?_eq_scalar, Token.ofText?_ofList h] at hread
    exact hread
  · rintro ⟨ts, hts, hread⟩
    refine ⟨not_blank_of_read? h hts hread, _, rfl, ?_⟩
    rw [ofText?_eq_scalar, Token.ofText?_ofList h]
    exact ⟨ts, hts, hread⟩

section

variable {text : String} (hsplit : splitAtEquals text.toList none = [left, right])
  (hleft : isSelfContained left = true) (hright : isSelfContained right = true)

include hsplit hleft hright

/-- The formula of an equation with self-contained sides is what the tokens of their difference
read. -/
private theorem readFormula_difference : readFormula text = .ok f ↔
    ∃ ts us, Token.tokens? 0 left = some ts ∧ Token.tokens? 0 right = some us ∧
      Reader.read? (Token.bareNames (String.ofList left) ++ Token.bareNames (String.ofList right))
        (Reader.difference ts us) = some (.scalar f) := by
  have hbody : Operand.ofText? (String.ofList (differenceText left right)) = some (.scalar f) ↔
      ∃ ts us, Token.tokens? 0 left = some ts ∧ Token.tokens? 0 right = some us ∧
        Reader.read? (Token.bareNames (String.ofList left) ++
          Token.bareNames (String.ofList right)) (Reader.difference ts us) = some (.scalar f) := by
    rw [ofText?_eq_scalar, Token.ofText?_differenceText, Token.tokens?_difference hleft hright,
      Token.bareNames_differenceText, Token.bareNames_ofList, Token.bareNames_ofList]
    cases Token.tokens? 0 left with
    | none => simp
    | some ts => cases Token.tokens? 0 right <;> simp
  rw [readFormula_eq_ok, residualText_sides hsplit, ← hbody]
  constructor
  · rintro ⟨-, body, hresidual, hread⟩
    split at hresidual
    · cases hresidual
    · cases hresidual
      exact hread
  · intro hread
    obtain ⟨ts, us, hts, hus, hdifference⟩ := hbody.mp hread
    obtain ⟨a, b, -, ha, hb, -⟩ := (Reader.read?_difference
      (balanced_of_tokens? hleft hts) (balanced_of_tokens? hright hus)).mp hdifference
    refine ⟨isAllBlank_of_sides hsplit, _, if_neg ?_, hread⟩
    rw [not_blank_of_read? hleft hts ha, not_blank_of_read? hright hus hb]
    exact Bool.false_ne_true

/-- **The formula of an equation with self-contained sides is the difference of theirs.** -/
theorem readFormula_sides : readFormula text = .ok f ↔
    ∃ a b, f = .sub a b ∧ readFormula (String.ofList left) = .ok a ∧
      readFormula (String.ofList right) = .ok b ∧
      Separate (String.ofList left) (String.ofList right) := by
  obtain ⟨-, hone, hother, -⟩ := splitAtEquals_pair hsplit
  rw [readFormula_difference hsplit hleft hright]
  constructor
  · rintro ⟨ts, us, hts, hus, hread⟩
    obtain ⟨a, b, rfl, ha, hb, hcompatible⟩ := (Reader.read?_difference
      (balanced_of_tokens? hleft hts) (balanced_of_tokens? hright hus)).mp hread
    refine ⟨a, b, rfl, (readFormula_side hleft hone).mpr ⟨ts, hts, ha⟩,
      (readFormula_side hright hother).mpr ⟨us, hus, hb⟩, fun ts' us' hts' hus' => ?_⟩
    rw [Token.ofText?_ofList hleft, hts] at hts'
    rw [Token.ofText?_ofList hright, hus] at hus'
    cases hts'
    cases hus'
    exact hcompatible
  · rintro ⟨a, b, rfl, ha, hb, hseparate⟩
    obtain ⟨ts, hts, ha⟩ := (readFormula_side hleft hone).mp ha
    obtain ⟨us, hus, hb⟩ := (readFormula_side hright hother).mp hb
    have hcompatible := hseparate ts us ((Token.ofText?_ofList hleft).trans hts)
      ((Token.ofText?_ofList hright).trans hus)
    exact ⟨ts, us, hts, hus, (Reader.read?_difference (balanced_of_tokens? hleft hts)
      (balanced_of_tokens? hright hus)).mpr ⟨a, b, rfl, ha, hb, hcompatible⟩⟩

end

/-! ### Expressions of the sides -/

/-- The difference of two expressions. -/
def Expr.difference (rules : DecimalRules) (x y : Expr Constant) : Expr Constant :=
  Expr.sum rules.round [x, Expr.product rules [.const .minusOne, y]]

/-- The `difference` of two expressions has the difference for its value. -/
private theorem Expr.means_difference {point : String → Option Rat} {x y : Expr Constant}
    {u v : Rat} (hx : x.Means point u) (hy : y.Means point v) :
    (Expr.difference rationalRules x y).Means point (u - v) := by
  rw [sub_eq_add_neg]
  exact Expr.means_sum_pair hx (Expr.means_opposite hy)

variable {α : Type} {rules : DecimalRules} {text : String} {e : Expr Constant}

theorem parse_eq_ok : parse (α := α) rules text = .ok e ↔
    ∃ f, readFormula text = .ok f ∧ f.simplify rules = .ok e := by
  unfold parse
  cases readFormula text with
  | error r => simp
  | ok f =>
    cases hf : f.simplify rules with
    | ok r => simp [hf]
    | error r => cases r <;> simp [hf]

/-- A difference is simplified by simplifying both sides. -/
private theorem simplify_sub {a b : Formula} : (Formula.sub a b).simplify rules = .ok e ↔
    ∃ x y, a.simplify rules = .ok x ∧ b.simplify rules = .ok y ∧
      e = Expr.difference rules x y := by
  rw [Formula.simplify, except_bind_eq_ok]
  constructor
  · rintro ⟨x, hx, h⟩
    obtain ⟨y, hy, h⟩ := except_bind_eq_ok.mp h
    cases h
    exact ⟨x, y, hx, hy, rfl⟩
  · rintro ⟨x, y, hx, hy, rfl⟩
    exact ⟨x, hx, except_bind_eq_ok.mpr ⟨y, hy, rfl⟩⟩

/-- The expression of an equation with self-contained sides is the difference of theirs. -/
private theorem parse_sides (hsplit : splitAtEquals text.toList none = [left, right])
    (hleft : isSelfContained left = true) (hright : isSelfContained right = true) :
    parse (α := α) rules text = .ok e ↔
      ∃ x y, parse (α := α) rules (String.ofList left) = .ok x ∧
        parse (α := α) rules (String.ofList right) = .ok y ∧
        Separate (String.ofList left) (String.ofList right) ∧ e = Expr.difference rules x y := by
  simp only [parse_eq_ok, readFormula_sides hsplit hleft hright]
  constructor
  · rintro ⟨f, ⟨a, b, rfl, ha, hb, hseparate⟩, he⟩
    obtain ⟨x, y, hx, hy, rfl⟩ := simplify_sub.mp he
    exact ⟨x, y, ⟨a, ha, hx⟩, ⟨b, hb, hy⟩, hseparate, rfl⟩
  · rintro ⟨x, y, ⟨a, ha, hx⟩, ⟨b, hb, hy⟩, hseparate, rfl⟩
    exact ⟨.sub a b, ⟨a, b, rfl, ha, hb, hseparate⟩, simplify_sub.mpr ⟨x, y, hx, hy, rfl⟩⟩

/-- **An equation is accepted exactly if its sides are, and it stands for their difference.** The
sides have to be self-contained, and neither may call a name that stands alone in the other. The
formula that is read is then the difference of theirs, and so is its simplified expression, whatever
the rules for decimals are. With nothing rounded the value of the expression is the difference of
their values, wherever both have one. -/
theorem accepted_iff_sides_accepted (hsplit : splitAtEquals text.toList none = [left, right])
    (hleft : isSelfContained left = true) (hright : isSelfContained right = true) :
    (∀ rules, (∃ e, parse (α := α) rules text = .ok e) ↔
      (∃ x, parse (α := α) rules (String.ofList left) = .ok x) ∧
      (∃ y, parse (α := α) rules (String.ofList right) = .ok y) ∧
      Separate (String.ofList left) (String.ofList right)) ∧
    (∀ f, readFormula text = .ok f → ∃ a b, f = .sub a b ∧
      readFormula (String.ofList left) = .ok a ∧ readFormula (String.ofList right) = .ok b) ∧
    (∀ rules e x y, parse (α := α) rules text = .ok e →
      parse (α := α) rules (String.ofList left) = .ok x →
      parse (α := α) rules (String.ofList right) = .ok y → e = Expr.difference rules x y) ∧
    ∀ e x y, parse (α := α) rationalRules text = .ok e →
      parse (α := α) rationalRules (String.ofList left) = .ok x →
      parse (α := α) rationalRules (String.ofList right) = .ok y →
      x.IsArithmetic → y.IsArithmetic → ∀ (point : String → Option Rat) (u v : Rat),
        x.evaluate point = .ok u → y.evaluate point = .ok v → e.evaluate point = .ok (u - v) := by
  -- Reading is a function, so the sides that are read are the given ones.
  have hdifference : ∀ rules e x y, parse (α := α) rules text = .ok e →
      parse (α := α) rules (String.ofList left) = .ok x →
      parse (α := α) rules (String.ofList right) = .ok y → e = Expr.difference rules x y := by
    intro rules e x y he hx hy
    obtain ⟨x', y', hx', hy', -, rfl⟩ := (parse_sides hsplit hleft hright).mp he
    rw [hx] at hx'
    rw [hy] at hy'
    cases hx'
    cases hy'
    rfl
  refine ⟨fun rules => ⟨?_, ?_⟩, ?_, hdifference, ?_⟩
  · rintro ⟨e, he⟩
    obtain ⟨x, y, hx, hy, hseparate, -⟩ := (parse_sides hsplit hleft hright).mp he
    exact ⟨⟨x, hx⟩, ⟨y, hy⟩, hseparate⟩
  · rintro ⟨⟨x, hx⟩, ⟨y, hy⟩, hseparate⟩
    exact ⟨_, (parse_sides hsplit hleft hright).mpr ⟨x, y, hx, hy, hseparate, rfl⟩⟩
  · intro f hf
    obtain ⟨a, b, rfl, ha, hb, -⟩ := (readFormula_sides hsplit hleft hright).mp hf
    exact ⟨a, b, rfl, ha, hb⟩
  · intro e x y he hx hy hax hay point u v hu hv
    rw [hdifference _ e x y he hx hy]
    exact Expr.evaluate_eq (Expr.means_difference (Expr.means_of_evaluate hax hu)
      (Expr.means_of_evaluate hay hv))

/-- At a point where `x + y` is seven, the equation `x + y = 9` has the value minus two. -/
theorem accepted_sum : ∃ e, parse (α := Rat) rationalRules "x + y = 9" = .ok e ∧
    Separate (String.ofList "x + y ".toList) (String.ofList " 9".toList) ∧
    e.evaluate (fun n => if n = "x" then some 4 else some 3) = .ok (7 - 9 : Rat) := by
  obtain ⟨haccepted, -, -, hvalue⟩ := accepted_iff_sides_accepted (α := Rat)
    (show splitAtEquals "x + y = 9".toList none = ["x + y ".toList, " 9".toList] by decide +kernel)
    (show isSelfContained "x + y ".toList = true by decide +kernel)
    (show isSelfContained " 9".toList = true by decide +kernel)
  have hparse : parse (α := Rat) rationalRules "x + y = 9" =
      .ok (.add (.add (.const (.exact (-9))) (.var "x")) (.var "y")) :=
    except_toOption_eq_some.mp (by decide +kernel)
  have hleft : parse (α := Rat) rationalRules (String.ofList "x + y ".toList) =
      .ok (.add (.var "x") (.var "y")) := except_toOption_eq_some.mp (by decide +kernel)
  have hright : parse (α := Rat) rationalRules (String.ofList " 9".toList) =
      .ok (.const (.exact 9)) := except_toOption_eq_some.mp (by decide +kernel)
  obtain ⟨-, -, hseparate⟩ := (haccepted _).mp ⟨_, hparse⟩
  exact ⟨_, hparse, hseparate, hvalue _ _ _ hparse hleft hright ⟨trivial, trivial⟩ trivial _ 7 9
    (except_toOption_eq_some.mp (by decide +kernel))
    (except_toOption_eq_some.mp (by decide +kernel))⟩

/-- A bracket that is opened on one side of the sign and closed on the other is closed by the
parentheses around the sides instead: the equation is accepted though neither side is. Conversely a
comment on one side swallows the parentheses, and the equation is refused though both sides are
accepted. -/
theorem exists_accepted_with_refused_sides :
    (splitAtEquals "(x = y)".toList none = ["(x ".toList, " y)".toList] ∧
      (parse (α := Rat) rationalRules "(x = y)").toOption =
        some (.add (.var "x") (.mul (.const .minusOne) (.var "y"))) ∧
      (parse (α := Rat) rationalRules "(x ").toOption = none ∧
      (parse (α := Rat) rationalRules " y)").toOption = none) ∧
    (splitAtEquals "x = 3 # apples".toList none = ["x ".toList, " 3 # apples".toList] ∧
      (parse (α := Rat) rationalRules "x = 3 # apples").toOption = none ∧
      (parse (α := Rat) rationalRules "x ").toOption = some (.var "x") ∧
      (parse (α := Rat) rationalRules " 3 # apples").toOption = some (.const (.exact 3))) := by
  decide +kernel

end FluxBalance.Equation
