import FluxBalance.Number.Binary

/-!
# Constants of equations

The numbers inside an equation. Integers and their quotients are exact. Decimals carry the
significance of a double but may be as large or as small as they like: every operation on them
is rounded to 53 binary digits, and only when an equation is evaluated do they become doubles.
Dividing by zero gives an infinite constant without a sign, and an operation on infinite
constants may have no value at all.

How decimals are rounded is a parameter. With the identity in its place all arithmetic is exact,
which is the reading in which simplification preserves values.
-/

namespace FluxBalance.Equation

/-- A number inside an equation. -/
inductive Constant where
  /-- An integer or a quotient of integers. -/
  | exact (value : Rat)
  /-- A decimal number. -/
  | decimal (value : Rat)
  /-- Positive or negative infinity. -/
  | infinite (negative : Bool)
  /-- Infinity without a sign. -/
  | unsigned
  /-- The result of an operation that has none. -/
  | undefined
  deriving Repr, DecidableEq, Inhabited

/-- How the results of decimal operations are rounded. -/
abbrev Rounding := Rat → Rat

/-- Rounding to the significance of a double, with exponents of any size. -/
def toDoubleDigits : Rounding := Number.roundSignificant 2 53

namespace Constant

/-- Zero. -/
def zero : Constant := exact 0

/-- One. -/
def one : Constant := exact 1

/-- Minus one. -/
def minusOne : Constant := exact (-1)

/-- The rational value of a finite constant. -/
def toRat? : Constant → Option Rat
  | exact q | decimal q => some q
  | _ => none

/-- Whether the constant is finite. -/
def isFinite (c : Constant) : Bool := c.toRat?.isSome

/-- Whether the constant is a decimal. -/
def isDecimal : Constant → Bool
  | decimal _ => true
  | _ => false

/-- Whether the constant is zero, exactly or as a decimal. -/
def isZero (c : Constant) : Bool := c.toRat? == some 0

/-- Whether the constant is infinite, with or without a sign. -/
def isInfinite : Constant → Bool
  | infinite _ | unsigned => true
  | _ => false

/-- Whether the constant is less than zero. -/
def isNegative : Constant → Bool
  | exact q | decimal q => q < 0
  | infinite negative => negative
  | _ => false

/-- Whether the constant is greater than zero. -/
def isPositive : Constant → Bool
  | exact q | decimal q => 0 < q
  | infinite negative => !negative
  | _ => false

/-- The integer that an exact constant is. -/
def toInt? : Constant → Option Int
  | exact q => if q.den = 1 then some q.num else none
  | _ => none

/-! ### Order -/

/-- The place of a constant's kind in the order of constants. -/
def rank : Constant → Nat
  | exact _ => 0
  | decimal _ => 1
  | infinite true => 2
  | infinite false => 3
  | unsigned => 4
  | undefined => 5

/-- The order of constants: by kind, then by value. -/
def compare (a b : Constant) : Ordering :=
  match a.toRat?, b.toRat? with
  | some p, some q =>
    if p < q then .lt else if q < p then .gt else Ord.compare a.rank b.rank
  | _, _ => Ord.compare a.rank b.rank

/-! ### Arithmetic -/

section

variable (round : Rounding)

/-- A decimal result. A result of zero is exact. -/
def ofDecimal (q : Rat) : Constant :=
  let r := round q
  if r = 0 then zero else decimal r

/-- An operation on two finite values, exact if both are. An exact operand beside a decimal one
is first rounded like a decimal. -/
def combine (op : Rat → Rat → Rat) : Constant → Constant → Option Constant
  | exact p, exact q => some (exact (op p q))
  | exact p, decimal q => some (ofDecimal round (op (round p) q))
  | decimal p, exact q => some (ofDecimal round (op p (round q)))
  | decimal p, decimal q => some (ofDecimal round (op p q))
  | _, _ => none

/-- The sum of two constants. -/
def add (a b : Constant) : Constant :=
  match combine round (· + ·) a b with
  | some c => c
  | none =>
    match a, b with
    | undefined, _ | _, undefined => undefined
    | unsigned, c | c, unsigned => if c.isInfinite then undefined else unsigned
    | infinite s, infinite t => if s = t then infinite s else undefined
    | infinite s, _ | _, infinite s => infinite s
    | _, _ => undefined

/-- The product of two constants. -/
def mul (a b : Constant) : Constant :=
  match combine round (· * ·) a b with
  | some c => c
  | none =>
    if a = undefined ∨ b = undefined ∨ a.isZero ∨ b.isZero then undefined
    else if a = unsigned ∨ b = unsigned then unsigned
    else infinite (a.isNegative != b.isNegative)

end

/-- The constant with the opposite sign. -/
def neg : Constant → Constant
  | exact q => exact (-q)
  | decimal q => decimal (-q)
  | infinite negative => infinite (!negative)
  | c => c

/-- The magnitude of a constant. -/
def abs : Constant → Constant
  | exact q => exact (if q < 0 then -q else q)
  | decimal q => decimal (if q < 0 then -q else q)
  | infinite _ | unsigned => infinite false
  | undefined => undefined

/-- A double as a constant. -/
def ofDouble (x : Float) : Constant :=
  match Number.toRat? x with
  | some q => decimal q
  | none => if x != x then undefined else infinite (x < 0)

end Constant

end FluxBalance.Equation
