import FluxBalance.Equation.Expr

/-!
# Values of expressions

What an expression is evaluated to. The operations of `Arithmetic` may fail, because a quotient,
a power or a function need not have a value. Two instances matter. A `Quantity` is a double, or
a complex number that came from a power of a negative base: complex numbers can be added,
multiplied and raised to powers and have a magnitude, but no other function accepts them. Over
the rationals sums, products, quotients and integer powers are exact.
-/

namespace FluxBalance.Equation

/-- The operations that the value of an expression is computed with. -/
class Arithmetic (V : Type) where
  /-- The value of a constant; none if it is too large. -/
  ofConstant : Constant → Option V
  add : V → V → V
  mul : V → V → V
  divide : V → V → Option V
  pow : V → V → Option V
  sqrt : V → Option V
  apply : Fn → V → Option V
  apply₂ : Fn₂ → V → V → Option V

/-! ### Doubles and complex numbers -/

/-- A double or a complex number. -/
inductive Quantity where
  | real (x : Float)
  | complex (re im : Float)
  deriving Inhabited

namespace Quantity

/-- The real part. -/
def re : Quantity → Float
  | real x => x
  | complex x _ => x

/-- The imaginary part. -/
def im : Quantity → Float
  | real _ => 0
  | complex _ y => y

/-- The sum. -/
def add : Quantity → Quantity → Quantity
  | real x, real y => real (x + y)
  | a, b => complex (a.re + b.re) (a.im + b.im)

/-- The product. -/
def mul : Quantity → Quantity → Quantity
  | real x, real y => real (x * y)
  | a, b => complex (a.re * b.re - a.im * b.im) (a.re * b.im + a.im * b.re)

/-- The quotient, unless the divisor is zero. -/
def divide : Quantity → Quantity → Option Quantity
  | real x, real y => if y == 0 then none else some (real (x / y))
  | a, b =>
    let n := b.re * b.re + b.im * b.im
    if n == 0 then none
    else some (complex ((a.re * b.re + a.im * b.im) / n) ((a.im * b.re - a.re * b.im) / n))

/-- The magnitude of a complex number. -/
def modulus (a : Quantity) : Float := (a.re * a.re + a.im * a.im).sqrt

/-- A power of complex numbers in polar form. -/
def complexPower (a b : Quantity) : Option Quantity :=
  if b.re == 0 && b.im == 0 then some (complex 1 0)
  else if a.re == 0 && a.im == 0 then
    if b.im != 0 || b.re < 0 then none else some (complex 0 0)
  else
    let size := a.modulus
    let angle := Float.atan2 a.im a.re
    let length := size.pow b.re * (-(angle * b.im)).exp
    let phase := angle * b.re + b.im * size.log
    if length.isFinite then some (complex (length * phase.cos) (length * phase.sin)) else none

/-- A power of doubles. It fails for negative powers of zero and for results that are too large;
a power of a negative base that is no integer is complex. -/
def realPower (x y : Float) : Option Quantity :=
  if y == 0 then some (real 1)
  else if x == 0 && y < 0 then none
  else if x < 0 && x.isFinite && y.isFinite && y.floor != y then
    complexPower (complex x 0) (complex y 0)
  else
    let z := x.pow y
    if z.isFinite || !x.isFinite || !y.isFinite then some (real z) else none

/-- A power. -/
def pow : Quantity → Quantity → Option Quantity
  | real x, real y => realPower x y
  | a, b => complexPower a b

/-- The square root of a double that is not negative. -/
def sqrt : Quantity → Option Quantity
  | real x => if x < 0 then none else some (real x.sqrt)
  | complex .. => none

/-- A result that is too large unless the argument was infinite. -/
def unlessTooLarge (x y : Float) : Option Float :=
  if y.isInf && x.isFinite then none else some y

/-- A function of one real argument, where it is defined. -/
def applyReal (f : Fn) (x : Float) : Option Float :=
  match f with
  | .exp => unlessTooLarge x x.exp
  | .log => if x ≤ 0 then none else some x.log
  | .sin => if x.isInf then none else some x.sin
  | .cos => if x.isInf then none else some x.cos
  | .tan => if x.isInf then none else some x.tan
  | .asin => if 1 < x.abs then none else some x.asin
  | .acos => if 1 < x.abs then none else some x.acos
  | .atan => some x.atan
  | .sinh => unlessTooLarge x x.sinh
  | .cosh => unlessTooLarge x x.cosh
  | .tanh => some x.tanh
  | .abs => some x.abs
  | .sign => some (if x == 0 then 0 else if x < 0 then -1 else 1)
  | .floor => if x.isFinite then some x.floor else none
  | .ceiling => if x.isFinite then some x.ceil else none
  | .factorial => none

/-- A function of one argument. Of a complex number only the magnitude is defined. -/
def apply (f : Fn) : Quantity → Option Quantity
  | real x => (applyReal f x).map real
  | a => if f = .abs then some (real a.modulus) else none

/-- The remainder of a division that goes toward zero, for finite numbers. -/
def remainder (x y : Float) : Float :=
  match Number.toRat? x, Number.toRat? y with
  | some p, some q =>
    let t := p / q
    let n := if t < 0 then t.ceil else t.floor
    let r := p - q * n
    if r = 0 then 0 * x else Number.toDouble r
  | _, some _ => 0.0 / 0.0
  | _, none => if y.isNaN || x.isNaN || x.isInf then 0.0 / 0.0 else x

/-- The remainder that has the sign of the divisor. -/
def modulo (x y : Float) : Option Float :=
  if y == 0 then none
  else
    let r := remainder x y
    some (if r != 0 && (r < 0) != (y < 0) then r + y else r)

/-- A function of two real arguments, where it is defined. -/
def applyReal₂ (f : Fn₂) (x y : Float) : Option Float :=
  match f with
  | .atan2 => some (Float.atan2 x y)
  | .mod => modulo x y
  | .max => some (if x < y then y else x)
  | .min => some (if y < x then y else x)

/-- A function of two arguments, neither of them complex. -/
def apply₂ (f : Fn₂) : Quantity → Quantity → Option Quantity
  | real x, real y => (applyReal₂ f x y).map real
  | _, _ => none

/-- A constant as a double. A decimal counts with its first 15 digits and becomes infinite when
it is too large; an exact number that is too large has no value. Constants without a sign are
undefined numbers. -/
def ofConstant : Constant → Option Quantity
  | .exact q =>
    let x := Number.toDouble q
    if x.isFinite then some (real x) else none
  | .decimal q => some (real (Number.toDouble (Number.roundSignificant 10 15 q)))
  | .infinite negative => some (real (if negative then -1.0 / 0.0 else 1.0 / 0.0))
  | _ => some (real (0.0 / 0.0))

end Quantity

instance : Arithmetic Quantity where
  ofConstant := Quantity.ofConstant
  add := Quantity.add
  mul := Quantity.mul
  divide := Quantity.divide
  pow := Quantity.pow
  sqrt := Quantity.sqrt
  apply := Quantity.apply
  apply₂ := Quantity.apply₂

/-! ### Rationals -/

/-- An integer power of a rational; none for a negative power of zero. -/
def integerPower (x : Rat) (n : Int) : Option Rat :=
  if x = 0 ∧ n < 0 then none else some (x ^ n)

instance : Arithmetic Rat where
  ofConstant := Constant.toRat?
  add := (· + ·)
  mul := (· * ·)
  divide x y := if y = 0 then none else some (x / y)
  pow x y := if y.den = 1 then integerPower x y.num else none
  sqrt _ := none
  apply _ _ := none
  apply₂ _ _ _ := none

end FluxBalance.Equation
