import FluxBalance.Equation.Quantity

/-!
# Evaluation of expressions

The value of an expression at a point. A product is computed as a fraction: its factors with
negative exponents are multiplied up to a divisor.

An expression that is evaluated often is prepared first, so that its constants are turned into
values only once.
-/

namespace FluxBalance.Equation

/-- Why an expression has no value. -/
inductive Obstacle where
  /-- An operation is not defined, or its result is too large. -/
  | undefined
  /-- A function is not known. -/
  | unknownFunction (name : String)
  deriving Repr, DecidableEq

/-- A constant with its value, if it has one. -/
structure Literal (V : Type) where
  constant : Constant
  value : Option V

/-- The numerator and the divisor of a fraction; what is missing is one. -/
structure Fraction (V : Type) where
  numerator : Option V
  divisor : Option V

section

variable {V : Type} [Arithmetic V]

/-- A value that may be undefined. -/
def orUndefined (v : Option V) : Except Obstacle V :=
  match v with
  | some x => .ok x
  | none => .error .undefined

/-- A constant's value. -/
def constantValue (c : Constant) : Except Obstacle V := orUndefined (Arithmetic.ofConstant c)

namespace Fraction

/-- A number as a fraction. -/
def whole (v : V) : Fraction V := ⟨some v, none⟩

/-- The product of two parts, of which a missing one counts as one. -/
def times : Option V → Option V → Option V
  | some x, some y => some (Arithmetic.mul x y)
  | some x, none => some x
  | none, y => y

/-- The product of two fractions. -/
def mul (p q : Fraction V) : Fraction V :=
  ⟨times p.numerator q.numerator, times p.divisor q.divisor⟩

/-- The value of a fraction. -/
def value (q : Fraction V) : Except Obstacle V := do
  let n ←
    match q.numerator with
    | some n => pure n
    | none => constantValue .one
  match q.divisor with
  | some d => orUndefined (Arithmetic.divide n d)
  | none => return n

end Fraction

/-- A power with a positive exact exponent. Exponents one and one half are no powers but the
base itself and its square root. -/
def exactPower (b : V) (q : Rat) : Except Obstacle V :=
  if q = 1 then return b
  else if q = mkRat 1 2 then orUndefined (Arithmetic.sqrt b)
  else do orUndefined (Arithmetic.pow b (← constantValue (.exact q)))

/-- The value of an expression, as a fraction if it stands inside a product. -/
def Expr.fraction (point : String → Option V) :
    Bool → Expr (Literal V) → Except Obstacle (Fraction V)
  | _, const c => do return .whole (← orUndefined c.value)
  | _, var name => do return .whole (← orUndefined (point name))
  | _, add a b => do
    let x ← (← fraction point false a).value
    let y ← (← fraction point false b).value
    return .whole (Arithmetic.add x y)
  | inside, mul a b => do
    let p ← fraction point true a
    let q ← fraction point true b
    if inside then return p.mul q else return .whole (← (p.mul q).value)
  | inside, pow b e => do
    let x ← (← fraction point false b).value
    let y ← (← fraction point false e).value
    let general := do return Fraction.whole (← orUndefined (Arithmetic.pow x y))
    match e with
    | const ⟨.exact q, _⟩ =>
      if 0 < q then return .whole (← exactPower x q)
      else if inside && q < 0 then return ⟨none, some (← exactPower x (-q))⟩
      else if q = -1 ∨ q = mkRat (-1) 2 then
        return .whole (← (⟨none, some (← exactPower x (-q))⟩ : Fraction V).value)
      else general
    | _ => general
  | _, apply f a => do
    let x ← (← fraction point false a).value
    return .whole (← orUndefined (Arithmetic.apply f x))
  | _, apply₂ f a b => do
    let x ← (← fraction point false a).value
    let y ← (← fraction point false b).value
    return .whole (← orUndefined (Arithmetic.apply₂ f x y))
  | _, unknown name => throw (.unknownFunction name)
  | inside, applied f _ => fraction point inside f

/-- An expression with the values of its constants. -/
def Expr.prepare (e : Expr Constant) : Expr (Literal V) :=
  e.map fun c => ⟨c, Arithmetic.ofConstant c⟩

/-- The value of a prepared expression at a point. -/
def Expr.evaluatePrepared (e : Expr (Literal V)) (point : String → Option V) :
    Except Obstacle V := do
  (← e.fraction point false).value

/-- The value of an expression at a point. -/
def Expr.evaluate (e : Expr Constant) (point : String → Option V) : Except Obstacle V :=
  e.prepare.evaluatePrepared point

end

/-! ### Expressions without variables -/

/-- The value of an expression without variables, if it is a finite real number. -/
def Expr.closedValue? (e : Expr Constant) : Option Float :=
  if e.isClosed then
    match e.evaluate (V := Quantity) fun _ => none with
    | .ok (.real x) => if x.isFinite then some x else none
    | _ => none
  else none

end FluxBalance.Equation
