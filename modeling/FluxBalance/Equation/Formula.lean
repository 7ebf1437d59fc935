import FluxBalance.Equation.Function

/-!
# Formulas

A formula is an equation's text as it was written: its operators and operands, nothing
simplified. A function with arguments is a `call` for each of them, one inside the other.

`Formula.value?` is the direct reading of a formula over the rationals: each operator is applied
to the values of its operands. `Formula.simplify` makes an expression of a formula, operator by
operator.
-/

namespace FluxBalance.Equation

/-- A formula as it was written. -/
inductive Formula where
  | integer (n : Nat)
  /-- The decimal `mantissa · 10 ^ exponent`. -/
  | decimal (mantissa : Nat) (exponent : Int)
  | imaginary
  | name (name : String)
  | neg (a : Formula)
  | add (a b : Formula)
  | sub (a b : Formula)
  | mul (a b : Formula)
  | div (a b : Formula)
  | floorDiv (a b : Formula)
  | mod (a b : Formula)
  | pow (a b : Formula)
  | factorial (a : Formula)
  | doubleFactorial (a : Formula)
  | function (name : String)
  | call (f a : Formula)
  deriving Repr, DecidableEq, Inhabited

namespace Formula

/-! ### The direct reading -/

/-- The value of a formula over the rationals, given the values of the names. There is none if a
name has none, if something is divided by zero, if zero is raised to a negative power, and for
operators other than sums, products, quotients and integer powers. -/
def value? (env : String → Option Rat) : Formula → Option Rat
  | integer n => some n
  | decimal m e => some (Number.scaled m 10 e)
  | name n => env n
  | neg a => do return -(← a.value? env)
  | add a b => do return (← a.value? env) + (← b.value? env)
  | sub a b => do return (← a.value? env) - (← b.value? env)
  | mul a b => do return (← a.value? env) * (← b.value? env)
  | div a b => do
    let x ← a.value? env
    let y ← b.value? env
    if y = 0 then none else return x / y
  | pow a b => do
    let x ← a.value? env
    let y ← b.value? env
    if y.den = 1 then integerPower x y.num else none
  | _ => none

/-! ### Simplification -/

section

variable (rules : DecimalRules)

/-- The imaginary unit, a square root of minus one. -/
def imaginaryUnit : Expr Constant := .pow (.const .minusOne) (.const (.exact (mkRat 1 2)))

/-- A decimal as a constant. -/
def decimalConstant (m : Nat) (e : Int) : Constant :=
  .decimal (rules.round (Number.scaled m 10 e))

mutual

/-- The expression that a formula stands for. -/
def simplify : Formula → Except Refusal (Expr Constant)
  | integer n => .ok (.const (.exact n))
  | decimal m e => .ok (.const (decimalConstant rules m e))
  | imaginary => .ok imaginaryUnit
  | name n => .ok (.var n)
  | neg a => do return Expr.product rules [.const .minusOne, ← simplify a]
  | add a b => do return Expr.sum rules.round [← simplify a, ← simplify b]
  | sub a b => do
    let x ← simplify a
    let y ← simplify b
    return Expr.sum rules.round [x, Expr.product rules [.const .minusOne, y]]
  | mul a b => do return Expr.product rules [← simplify a, ← simplify b]
  | div a b => do
    let x ← simplify a
    let y ← simplify b
    return Expr.quotient rules x y
  | floorDiv a b => do
    let x ← simplify a
    let y ← simplify b
    Expr.floorQuotient rules x y
  | mod a b => do
    let x ← simplify a
    let y ← simplify b
    Expr.remainder rules x y
  | pow a b => do return Expr.power rules (← simplify a) (← simplify b)
  | factorial a => do return Expr.function rules .factorial (← simplify a)
  | doubleFactorial a => do Expr.doubleFactorial (← simplify a)
  | function n => Expr.call rules n []
  | call f a => do
    let (n, args) ← spine f
    let x ← simplify a
    Expr.call rules n (args ++ [x])

/-- The name of a function and the arguments that it has been given. -/
def spine : Formula → Except Refusal (String × List (Expr Constant))
  | function n => .ok (n, [])
  | call f a => do
    let (n, args) ← spine f
    let x ← simplify a
    return (n, args ++ [x])
  | _ => .error .unreadable

end

end

end Formula

/-! ### Substitution -/

namespace Expr

/-- What becomes of an expression when a part of it is replaced: nothing, or a single
expression, a sum or a product whose parts are not yet put together. -/
inductive Rebuilt where
  | unchanged (e : Expr Constant)
  | single (e : Expr Constant)
  | addends (es : List (Expr Constant))
  | factors (es : List (Expr Constant))

namespace Rebuilt

/-- Whether nothing was replaced. -/
def isUnchanged : Rebuilt → Bool
  | unchanged _ => true
  | _ => false

/-- The expression, put together. -/
def expr (rules : DecimalRules) : Rebuilt → Expr Constant
  | unchanged e | single e => e
  | addends es => sum rules.round es
  | factors es => product rules es

/-- The parts of the expression as a part of a sum. -/
def asAddends (rules : DecimalRules) : Rebuilt → List (Expr Constant)
  | addends es => es
  | r => [r.expr rules]

/-- The parts of the expression as a part of a product. -/
def asFactors (rules : DecimalRules) : Rebuilt → List (Expr Constant)
  | factors es => es
  | r => [r.expr rules]

end Rebuilt

/-- An expression with a variable replaced by a constant, simplified again where it has
changed. -/
def rebuild (rules : DecimalRules) (variableName : String) (value : Constant) :
    Expr Constant → Except Refusal Rebuilt
  | const c => .ok (.unchanged (const c))
  | var n => .ok (if n = variableName then .single (const value) else .unchanged (var n))
  | add a b => do
    let x ← rebuild rules variableName value a
    let y ← rebuild rules variableName value b
    if x.isUnchanged && y.isUnchanged then return .unchanged (add a b)
    else return .addends (x.asAddends rules ++ y.asAddends rules)
  | mul a b => do
    let x ← rebuild rules variableName value a
    let y ← rebuild rules variableName value b
    if x.isUnchanged && y.isUnchanged then return .unchanged (mul a b)
    else return .factors (x.asFactors rules ++ y.asFactors rules)
  | pow a b => do
    let x ← rebuild rules variableName value a
    let y ← rebuild rules variableName value b
    if x.isUnchanged && y.isUnchanged then return .unchanged (pow a b)
    else return .single (power rules (x.expr rules) (y.expr rules))
  | apply f a => do
    let x ← rebuild rules variableName value a
    if x.isUnchanged then return .unchanged (apply f a)
    else return .single (function rules f (x.expr rules))
  | apply₂ f a b => do
    let x ← rebuild rules variableName value a
    let y ← rebuild rules variableName value b
    if x.isUnchanged && y.isUnchanged then return .unchanged (apply₂ f a b)
    else
      let p := x.expr rules
      let q := y.expr rules
      match f with
      | .atan2 => return .single (angle rules p q)
      | .mod => return .single (← remainder rules p q)
      | .max | .min => return .single (← extreme f [p, q])
  | unknown n => .ok (.unchanged (unknown n))
  | applied f a => do
    let x ← rebuild rules variableName value f
    let y ← rebuild rules variableName value a
    if x.isUnchanged && y.isUnchanged then return .unchanged (applied f a)
    else return .single (applied (x.expr rules) (y.expr rules))

/-- An expression with a variable replaced by a constant. -/
def replaceVar (rules : DecimalRules) (variableName : String) (value : Constant)
    (e : Expr Constant) : Except Refusal (Expr Constant) := do
  return (← rebuild rules variableName value e).expr rules

/-- An expression with several variables replaced, one after the other. -/
def replaceVars (rules : DecimalRules) (values : List (String × Constant))
    (e : Expr Constant) : Except Refusal (Expr Constant) :=
  values.foldlM (fun e p => replaceVar rules p.1 p.2 e) e

end Expr

end FluxBalance.Equation
